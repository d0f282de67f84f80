import MqttBroker.Worker.Conclusion
import MqttBroker.Worker.Refusal
import MqttBroker.Worker.Suback

/-! When a part of the worker comes to its end. Where it does not, it follows a
pointer to no client, reads outside the buffer or a table, or walks through the
subscriptions for ever. Each condition is on the state in which the part begins. -/
namespace MqttBroker.Completion
open Logic Protocol Worker World FanOut Conclusion Rejection Decoding

variable {w w₁ w' : World} {sock : Fin 64} {p : Publication} {α β : Type}

/-- The run comes to its end. -/
abbrev Ends (w : World) (m : Worker α) : Prop := Completes w m fun _ _ => True

/-! ### Calls -/

theorem ends_of_ok {m : Worker α} {a : α} (ran : m w = .ok (a, w')) : Ends w m := ⟨a, w', ran, trivial⟩

theorem log_run (w : World) (e : Event) : Worker.log e w = .ok ((), w.log e) := rfl

theorem get_run (w : World) : (get : Worker World) w = .ok (w, w) := rfl

theorem sockAt_run (w : World) (sock : Fin 64) : sockAt sock w = .ok (w.socks sock, w) := rfl

theorem storeGet_run (w : World) (packetId : UInt16) :
    storeGet packetId w = .ok (w.publishMsgStore.get packetId, w) := rfl

theorem sendtoque_run (w : World) (msg : Message) : sendtoque msg w = .ok (w.env.sends.headD true,
    { w with env := { w.env with sends := w.env.sends.tail } }.log (.queued msg (w.env.sends.headD true))) := rfl

theorem countDownIf_ends {packetId : UInt16} {found : Option Nat} : Ends w (countDownIf packetId found) := by
  cases found with
  | none => exact ends_of_ok rfl
  | some node => exact ⟨(), _, countDown_ok.mpr rfl, trivial⟩

/-- A rest that comes to its end from anywhere does not matter. -/
theorem ends_then {m : Worker α} {f : α → Worker β} (rest : ∀ a t, Ends t (f a)) : Ends w (m >>= f) ↔ Ends w m :=
  completes_bind.trans ⟨fun ends => ends.mono fun _ _ _ => trivial, fun ends => ends.mono fun a t _ => rest a t⟩

/-! ### Messages -/

/-- A message is distributed to the end: the table has nothing for its packet
id, or every client is served. -/
def Spreads (w : World) (p : Publication) : Prop :=
  (added w p).2.1.get p.packetId = none ∨ ∀ node ∈ w.clientStore.nodes, Served p.topic node.data

theorem publishByTopic_ends :
    Ends w (publishByTopic p.topic p.frame p.qos p.packetId p.publisher) ↔ Spreads w p := by
  unfold Ends Completes Spreads
  rw [publishByTopic_entered]
  cases (added w p).2.1.get p.packetId with
  | none => exact iff_of_true ⟨_, _, rfl, trivial⟩ (.inl rfl)
  | some j =>
    rw [or_iff_right (Option.some_ne_none j)]
    constructor
    · rintro ⟨⟨⟩, w', ran, -⟩
      obtain ⟨⟨⟩, w₂, fanned, -⟩ := bind_ok.mp (log_bind_ok.mp ran)
      exact fanOut_served fanned
    · intro served
      obtain ⟨w₂, fanned, -⟩ := fanOut_run p (w.trace.length + 1) (begun w p) served
      exact ⟨(), _, log_bind_ok.mpr (bind_ok.mpr ⟨(), w₂, fanned, countDown_ok.mpr rfl⟩), trivial⟩

/-! ### Closing a connection -/

/-- The client of a socket is stored, and its session can be erased if it ends. -/
def Releasable (w : World) (sock : Fin 64) : Prop :=
  ∀ addr, (w.socks sock).client = some addr → ∃ client, w.clientAt addr = some client ∧
    (client.cleanSession = true → ∃ store, w.clientStore.erase (w.socks sock).clientid = .ok store)

/-- So it is, and its will is distributed to the end. -/
def Droppable (w : World) (sock : Fin 64) (sendwill : Bool) : Prop :=
  Releasable w sock ∧ ∀ addr client, (w.socks sock).client = some addr → w.clientAt addr = some client →
    (client.will.presenceFlag && sendwill) = true →
    Spreads (hidden w addr) (willOf client (w.env.randoms.headD 0))

theorem releaseClient_ends : Ends w (releaseClient sock (w.socks sock)) ↔ Releasable w sock := by
  unfold releaseClient
  cases attached : (w.socks sock).client with
  | none =>
    refine iff_of_true (ends_of_ok rfl) fun addr wrong => ?_
    rw [attached] at wrong
    cases wrong
  | some addr =>
    refine completes_deref.trans ?_
    have rest (client : Client) : Ends w (do
        Worker.log (.ended sock (w.socks sock).clientid client)
        if client.cleanSession then
          let w₁ ← get
          let erased ← check (w₁.clientStore.erase (w.socks sock).clientid)
          set { w₁ with clientStore := erased }
        else Worker.setClient (some addr) ({ · with sock := none })) ↔
          (client.cleanSession = true → ∃ store, w.clientStore.erase (w.socks sock).clientid = .ok store) := by
      refine (completes_next (log_run _ _)).trans ?_
      by_cases clean : client.cleanSession = true
      · rw [if_pos clean]
        refine (completes_next (get_run _)).trans (completes_check.trans ?_)
        refine ⟨fun ⟨store, erased, _⟩ _ => ⟨store, erased⟩, fun erases => ?_⟩
        obtain ⟨store, erased⟩ := erases clean
        exact ⟨store, erased, ends_of_ok rfl⟩
      · rw [if_neg clean]
        exact iff_of_true (ends_of_ok rfl) fun wrong => absurd wrong clean
    constructor
    · rintro ⟨_, client, same, held, ends⟩ addr' attached'
      obtain rfl := Option.some.inj (attached.symm.trans attached')
      cases same
      exact ⟨client, held, (rest client).mp ends⟩
    · intro releases
      obtain ⟨client, held, erased⟩ := releases addr attached
      exact ⟨addr, client, rfl, held, (rest client).mpr erased⟩

theorem endSession_ends : Ends w (endSession sock) ↔ Releasable w sock := by
  refine (completes_next (sockAt_run w sock)).trans ((ends_then fun _ _ => ends_of_ok rfl).trans releaseClient_ends)

/-- Only what a socket and the stored clients have decides it. -/
theorem releasable_kept (kept : SessionsKept w w') : Releasable w' sock ↔ Releasable w sock := by
  unfold Releasable
  rw [kept.client, kept.clientid]
  simp only [clientAt, clients, kept.clients]

theorem bucket_mapped {m : Myhashmap Client} {f : Node Client → Node Client} (key : Key) :
    (m.mapped f).bucket key = (m.bucket key).map f := by
  simp [Myhashmap.bucket, Myhashmap.mapped, Myhashmap.capacity, List.getD_eq_getElem?_getD, List.getElem?_map]
  cases m.buckets[Myhashmap.bucketOf m.buckets.length key]? <;> rfl

/-- A key can be erased where its bucket has a node. -/
theorem erase_ends {m : Myhashmap α} {key : Key} : (∃ store, m.erase key = .ok store) ↔ m.bucket key ≠ [] := by
  by_cases buckets : 0 < m.capacity
  · rw [Myhashmap.erase, Myhashmap.index_eq buckets]
    simp only [bind, Except.bind, Myhashmap.chain_eq buckets]
    by_cases none : m.bucket key = []
    · simp [none]
    · rw [if_neg none]
      cases Myhashmap.unlink key (m.bucket key) <;> simp [none]
  · have empty : m.buckets = [] := List.eq_nil_of_length_eq_zero (Nat.eq_zero_of_not_pos buckets)
    have none : m.bucket key = [] := by rw [Myhashmap.bucket, empty, List.getD_nil]
    refine iff_of_false ?_ (not_not_intro none)
    rintro ⟨store, erased⟩
    unfold Myhashmap.erase Myhashmap.index Myhashmap.chain at erased
    rw [empty] at erased
    split at erased <;> cases erased

theorem erase_setClient {addr : Nat} {f : Client → Client} {key : Key} :
    (∃ store, (w.setClient addr f).clientStore.erase key = .ok store) ↔
      ∃ store, w.clientStore.erase key = .ok store := by
  have same : (w.setClient addr f).clientStore = w.clientStore.mapped (written addr f) := rfl
  rw [erase_ends, erase_ends, same, bucket_mapped, Ne, List.map_eq_nil_iff]

/-- A client that is written keeps its session as it is to be erased. -/
theorem releasable_setClient {addr : Nat} {f : Client → Client} (attached : (w.socks sock).client = some addr)
    (keeps : ∀ client, (f client).addr = client.addr ∧ (f client).cleanSession = client.cleanSession) :
    Releasable (w.setClient addr f) sock ↔ Releasable w sock := by
  have sole (w : World) (attached : (w.socks sock).client = some addr) : Releasable w sock ↔
      ∃ client, w.clientAt addr = some client ∧
        (client.cleanSession = true → ∃ store, w.clientStore.erase (w.socks sock).clientid = .ok store) := by
    refine ⟨fun releases => releases addr attached, fun releases addr' attached' => ?_⟩
    obtain rfl := Option.some.inj (attached.symm.trans attached')
    exact releases
  rw [sole w attached, sole (w.setClient addr f) attached, clientAt_setClient fun client => (keeps client).1]
  simp only [Option.map_eq_some_iff, setClient_socks, erase_setClient]
  constructor
  · rintro ⟨_, ⟨client, held, rfl⟩, erased⟩
    rw [(keeps client).2] at erased
    exact ⟨client, held, erased⟩
  · rintro ⟨client, held, erased⟩
    refine ⟨_, ⟨client, held, rfl⟩, ?_⟩
    rwa [(keeps client).2]

theorem sessions_fanOut {nodes : List (Node Client)} (stamp i : Nat) :
    Along SessionsKept (fanOut p.topic p.frame p.qos p.packetId p.publisher stamp i nodes) := by
  have asks (msg : Message) : Along SessionsKept (sendtoque msg) := by
    intro w ok w' ran
    obtain ⟨env, rfl⟩ := sendtoque_ok ran
    exact .log (.tables .refl _ _ _ env) not_false
  have bind {α β : Type} {m : Worker α} {f : α → Worker β} (first : Along SessionsKept m)
      (rest : ∀ a, Along SessionsKept (f a)) : Along SessionsKept (m >>= f) := by
    refine Along.bind ?_ first rest
    exact SessionsKept.trans
  induction nodes with
  | nil => exact Along.pure (fun _ => .refl) _
  | cons node rest ih =>
    obtain ⟨clientid, client⟩ := node
    unfold fanOut
    split
    · refine bind ?_ fun granted => ?_
      · intro w granted w' ran
        rw [(check_ok.mp ran).2]
        exact .refl
      split
      · exact ih
      · dsimp only
        split
        · exact fun _ _ _ ran => absurd ran fault_ok
        · refine bind (asks _) fun _ => bind (asks _) fun asked => ?_
          split
          · refine bind (Along.get fun w => ensures_pure.mpr .refl) fun sockst => bind ?_ fun _ => bind ?_ fun _ => ih
            · exact fun _ _ _ ran => sessionsKept_added (addPacketId_ok ran)
            · intro w u w' ran
              obtain rfl := countUp_ok.mp ran
              exact .countUp .refl i
          · exact bind (asks _) fun _ => ih
    · exact ih

/-- Distributing a message changes no session. -/
theorem publishByTopic_sessions {u : Unit}
    (ran : publishByTopic p.topic p.frame p.qos p.packetId p.publisher w = .ok (u, w')) : SessionsKept w w' := by
  have entering : SessionsKept w (entered w p) :=
    .tables (.log (.log .refl (by exact not_false)) (by exact not_false)) _ _ _ _
  rw [publishByTopic_entered] at ran
  refine entering.trans ?_
  cases found : (added w p).2.1.get p.packetId with
  | none =>
    rw [found] at ran
    rw [(pure_ok.mp ran).2]
    exact .refl
  | some j =>
    rw [found] at ran
    obtain ⟨⟨⟩, w₂, fanned, ran⟩ := bind_ok.mp (log_bind_ok.mp ran)
    obtain rfl := countDown_ok.mp ran
    exact .countDown ((SessionsKept.log .refl (by exact not_false)).trans (sessions_fanOut _ _ _ _ _ fanned)) _ _

/-- The will changes nothing of how its client is released. -/
theorem publishWill_releasable {sendwill : Bool} {u : Unit}
    (ran : publishWill (w.socks sock) sendwill w = .ok (u, w')) : Releasable w' sock ↔ Releasable w sock := by
  cases attached : (w.socks sock).client with
  | none =>
    rw [publishWill_vacant attached] at ran
    cases ran
    exact Iff.rfl
  | some addr =>
    have start := ran
    rw [publishWill, attached] at start
    obtain ⟨_, client, same, held, -⟩ := deref_bind_ok start
    cases same
    by_cases willed : (client.will.presenceFlag && sendwill) = true
    · rw [publishWill_willing attached held willed] at ran
      obtain ⟨⟨⟩, w₁, published, ran⟩ := bind_ok.mp ran
      obtain ⟨_, same, rfl⟩ := setClient_ok ran
      cases same
      have kept : SessionsKept (willing w sock addr client) w₁ :=
        publishByTopic_sessions (p := willOf client (w.env.randoms.headD 0)) published
      have shown := releasable_setClient (f := ({ · with sock := client.sock })) ((kept.client sock).trans attached)
        fun _ => ⟨rfl, rfl⟩
      refine shown.trans ((releasable_kept kept).trans ?_)
      exact releasable_setClient (f := ({ · with sock := none })) attached fun _ => ⟨rfl, rfl⟩
    · rw [publishWill_unwilled attached held willed] at ran
      cases ran
      exact Iff.rfl

/-- The client of a socket is stored, and its will distributed to the end. -/
theorem publishWill_ends {sendwill : Bool} : Ends w (publishWill (w.socks sock) sendwill) ↔
    ∀ addr, (w.socks sock).client = some addr → ∃ client, w.clientAt addr = some client ∧
      ((client.will.presenceFlag && sendwill) = true →
        Spreads (hidden w addr) (willOf client (w.env.randoms.headD 0))) := by
  cases attached : (w.socks sock).client with
  | none => exact iff_of_true (ends_of_ok (publishWill_vacant attached)) nofun
  | some addr =>
    constructor
    · rintro ⟨u, w', ran, -⟩ addr' same
      obtain rfl := Option.some.inj same
      have start := ran
      rw [publishWill, attached] at start
      obtain ⟨_, client, same, held, -⟩ := deref_bind_ok start
      cases same
      refine ⟨client, held, fun willed => ?_⟩
      rw [publishWill_willing attached held willed] at ran
      obtain ⟨⟨⟩, w₁, published, -⟩ := bind_ok.mp ran
      exact (publishByTopic_ends (w := willing w sock addr client)
        (p := willOf client (w.env.randoms.headD 0))).mp ⟨(), w₁, published, trivial⟩
    · intro stored
      obtain ⟨client, held, spreads⟩ := stored addr rfl
      by_cases willed : (client.will.presenceFlag && sendwill) = true
      · unfold Ends Completes
        rw [publishWill_willing attached held willed]
        obtain ⟨u, w₁, published, -⟩ := (publishByTopic_ends (w := willing w sock addr client)
          (p := willOf client (w.env.randoms.headD 0))).mpr (spreads willed)
        exact ⟨(), _, bind_ok.mpr ⟨u, w₁, published, rfl⟩, trivial⟩
      · exact ends_of_ok (publishWill_unwilled attached held willed)

theorem dropConn_ends {sendwill : Bool} : Ends w (dropConn sock sendwill) ↔ Droppable w sock sendwill := by
  unfold Ends Completes
  rw [dropConn_shut]
  refine (completes_bind (s := shut w sock sendwill) (m := publishWill (w.socks sock) sendwill)).trans ?_
  have ends (w₁ : World) : Completes w₁ (endSession sock) (fun _ _ => True) ↔ Releasable w₁ sock := endSession_ends
  simp only [ends]
  refine (completes_settled fun u w₁ ran => publishWill_releasable (w := shut w sock sendwill) ran).trans ?_
  refine (and_congr_left fun _ => publishWill_ends (w := shut w sock sendwill)).trans ?_
  constructor
  · rintro ⟨stored, releases⟩
    refine ⟨releases, fun addr client attached held willed => ?_⟩
    obtain ⟨client', held', spreads⟩ := stored addr attached
    obtain rfl := Option.some.inj (held.symm.trans held')
    exact spreads willed
  · rintro ⟨releases, spreads⟩
    refine ⟨fun addr attached => ?_, releases⟩
    obtain ⟨client, held, -⟩ := releases addr attached
    exact ⟨client, held, spreads addr client attached held⟩

/-! ### PUBLISH -/

/-- A message with the RETAIN flag can be kept for its topic. -/
def Retains (w : World) (topic frame : List UInt8) (qos : UInt8) (packetid : UInt16) : Prop :=
  (w.publishMsgStore.add packetid frame qos 2 w.env.heap).1 = true →
    ∃ kept, w.retainedSubMsg.get topic = .ok kept ∧ (kept = none → ∃ added, w.retainedSubMsg.add topic packetid
      (w.publishMsgStore.add packetid frame qos 2 w.env.heap).2.2 = .ok added)

theorem retainMessage_ends {topic frame : List UInt8} {qos : UInt8} {packetid : UInt16} :
    Ends w (retainMessage topic frame qos packetid) ↔ Retains w topic frame qos packetid := by
  let stored := w.publishMsgStore.add packetid frame qos 2 w.env.heap
  have ran : storeAdd packetid frame qos 2 (w.log (.retain topic frame qos packetid)) =
      .ok (stored.1, { (w.log (.retain topic frame qos packetid)).log
          (.adding w.socks w.publishMsgStore packetid frame qos stored.1) with
        publishMsgStore := stored.2.1, env := { w.env with heap := stored.2.2 } }) := rfl
  refine (completes_next (log_run _ _)).trans ((completes_next ran).trans ?_)
  by_cases full : stored.1 = true
  swap
  · rw [if_neg full]
    exact iff_of_true (ends_of_ok rfl) fun wrong => absurd wrong full
  rw [if_pos full]
  refine (completes_next (log_run _ _)).trans ((completes_next (get_run _)).trans (completes_check.trans ?_))
  constructor
  · rintro ⟨kept, found, ends⟩ -
    refine ⟨kept, found, ?_⟩
    rintro rfl
    obtain ⟨added, appended, -⟩ := completes_check.mp ends
    exact ⟨added, appended⟩
  · intro retains
    obtain ⟨kept, found, appended⟩ := retains full
    refine ⟨kept, found, ?_⟩
    cases kept with
    | none =>
      obtain ⟨added, appended⟩ := appended rfl
      exact completes_check.mpr ⟨added, appended, ends_of_ok rfl⟩
    | some old =>
      refine (completes_next (storeGet_run _ _)).mpr ?_
      exact (ends_then fun _ _ => ends_of_ok rfl).mpr countDownIf_ends

theorem replyToPublisher_ends {qos : UInt8} {packetid : UInt16} {frame topic : List UInt8} :
    Ends w (replyToPublisher sock qos packetid frame topic) := by
  have acks (state : PacketState) : Ends w (queueAck sock state packetid qos frame topic) := by
    refine (completes_next (sendtoque_run _ _)).mpr ?_
    split
    · refine (completes_next (sockAt_run _ _)).mpr ?_
      obtain ⟨w₁, ran, -⟩ := addPacketId_run ({ w with env := { w.env with sends := w.env.sends.tail } }.log
        (.queued ⟨sock, .write⟩ (w.env.sends.headD true))) sock
        ⟨packetid, state, qos, true, { conn := (w.socks sock).tls, frame, topic }⟩
      exact ends_of_ok ran
    · exact ends_of_ok rfl
  unfold replyToPublisher
  split
  · exact acks _
  split
  · exact acks _
  · exact ends_of_ok rfl

/-- What comes before the message is distributed. -/
def answering (sock : Fin 64) (retain : Bool) (qos : UInt8) (packetid : UInt16) (topic frame : List UInt8) :
    Worker Unit := do
  (if retain then retainMessage topic frame qos packetid else pure ())
  replyToPublisher sock qos packetid frame topic

/-- A message that is accepted is kept, if it is to be, and distributed to the
end. -/
def Accepted (w : World) (sock : Fin 64) (head qos : UInt8) (packetid : UInt16) (topic frame : List UInt8) : Prop :=
  (head &&& 0x01 ≠ 0 → Retains w topic frame qos packetid) ∧
    ∀ w₁, answering sock (head &&& 0x01 ≠ 0) qos packetid topic frame w = .ok ((), w₁) →
      Spreads w₁ ⟨topic, frame, qos, packetid, none⟩

theorem accepted_ends {head qos : UInt8} {packetid : UInt16} {topic frame : List UInt8}
    {publisher : Option Publisher} : Ends w (do
        (if head &&& 0x01 ≠ 0 then retainMessage topic frame qos packetid else pure ())
        replyToPublisher sock qos packetid frame topic
        publishByTopic topic frame qos packetid publisher) ↔
      Accepted w sock head qos packetid topic frame := by
  have split : (do
      (if head &&& 0x01 ≠ 0 then retainMessage topic frame qos packetid else pure ())
      replyToPublisher sock qos packetid frame topic
      publishByTopic topic frame qos packetid publisher : Worker Unit) =
      (answering sock (head &&& 0x01 ≠ 0) qos packetid topic frame >>= fun _ =>
        publishByTopic topic frame qos packetid publisher) := by
    simp only [answering, bind_assoc, decide_eq_true_eq]
  have first : Ends w (answering sock (head &&& 0x01 ≠ 0) qos packetid topic frame) ↔
      (head &&& 0x01 ≠ 0 → Retains w topic frame qos packetid) := by
    refine (ends_then fun _ _ => replyToPublisher_ends).trans ?_
    by_cases retain : head &&& 0x01 ≠ 0
    · rw [if_pos (decide_eq_true retain)]
      exact retainMessage_ends.trans ⟨fun retains _ => retains, fun retains => retains retain⟩
    · rw [if_neg (by simpa using retain)]
      exact iff_of_true (ends_of_ok rfl) fun wrong => absurd wrong retain
  have spreads (w₁ : World) : Ends w₁ (publishByTopic topic frame qos packetid publisher) ↔
      Spreads w₁ ⟨topic, frame, qos, packetid, none⟩ :=
    publishByTopic_ends (p := ⟨topic, frame, qos, packetid, publisher⟩)
  rw [split]
  refine completes_bind.trans ?_
  rw [Accepted, ← first]
  constructor
  · rintro ⟨u, w₁, ran, ends⟩
    refine ⟨ends_of_ok ran, fun w₂ ran' => ?_⟩
    obtain ⟨-, rfl⟩ := Prod.mk.inj (Except.ok.inj (ran.symm.trans ran'))
    exact (spreads w₁).mp ends
  · rintro ⟨⟨u, w₁, ran, -⟩, all⟩
    exact ⟨u, w₁, ran, (spreads w₁).mpr (all w₁ ran)⟩

/-- The packet id of a PUBLISH is there, if it has one. -/
def Identified (qos : UInt8) (w : World) (rest : List UInt8) (next : UInt16 → World → Prop) : Prop :=
  if qos > 0 then First rest fun low rest => First rest fun high _ => next ((high.toUInt16 <<< 8) ||| low.toUInt16) w
  else next (w.env.randoms.headD 0) { w with env := { w.env with randoms := w.env.randoms.tail } }

/-- The topic and the packet id of a PUBLISH are in the buffer, and its message
is accepted. -/
def Publishes (w : World) (sock : Fin 64) (header : Header) (head qos : UInt8) : Prop :=
  Prefixed (w.buf.drop header.curPos) fun len rest => len ≤ rest.length ∧
    Identified qos w (rest.drop len) fun packetid w =>
      let frame := w.buf.take header.packetLength.toNat
      Accepted (w.log (.publishing sock (w.socks sock) qos packetid (rest.take len) frame)) sock head qos packetid
        (rest.take len) frame

theorem left_drop {pos : Nat} (inside : pos ≤ w.buf.length) : Left w.buf pos (w.buf.drop pos) :=
  ⟨w.buf.take pos, (List.take_append_drop pos w.buf).symm, List.length_take_of_le inside⟩

theorem publishes_iff {header : Header} {head qos : UInt8} (valid : publishQos head = some qos)
    (first : w.buf.getD 0 0 = head) (filled : 0 < w.buf.length)
    (inside : header.curPos ≤ w.buf.length) (fits : header.packetLength.toNat ≤ w.buf.length) :
    Ends w (publishEvent sock header) ↔ Publishes w sock header head qos := by
  have read : byteAt 0 w = .ok (head, w) := by rw [byteAt_eq filled, first]
  refine (completes_next read).trans ?_
  rw [valid]
  refine completes_ntohsAt (left_drop inside) fun len rest left => completes_rangeAt left fun within left => ?_
  have accepts (packetid : UInt16) (w₁ : World) (same : w₁.buf = w.buf) : Ends w₁ (do
        let frame ← rangeAt 0 header.packetLength.toNat
        let sockst ← sockAt sock
        Worker.log (.publishing sock sockst qos packetid (rest.take len.toNat) frame)
        (if head &&& 0x01 ≠ 0 then retainMessage (rest.take len.toNat) frame qos packetid else pure ())
        replyToPublisher sock qos packetid frame (rest.take len.toNat)
        publishByTopic (rest.take len.toNat) frame qos packetid (some ⟨sockst.tls, sockst.clientid⟩)) ↔
      Accepted (w₁.log (.publishing sock (w₁.socks sock) qos packetid (rest.take len.toNat)
        (w₁.buf.take header.packetLength.toNat))) sock head qos packetid (rest.take len.toNat)
        (w₁.buf.take header.packetLength.toNat) := by
    have whole : rangeAt 0 header.packetLength.toNat w₁ = .ok (w₁.buf.take header.packetLength.toNat, w₁) :=
      rangeAt_left ⟨[], rfl, rfl⟩ (same ▸ fits)
    refine (completes_next whole).trans ((completes_next (sockAt_run _ _)).trans ?_)
    exact (completes_next (log_run _ _)).trans accepted_ends
  unfold Identified
  by_cases numbered : qos > 0
  · rw [if_pos numbered, if_pos numbered, packetIdAt, bind_assoc]
    refine completes_byteAt left fun low behind left => ?_
    rw [bind_assoc]
    refine completes_byteAt left fun high behind left => ?_
    rw [pure_bind]
    exact accepts _ w rfl
  · rw [if_neg numbered, if_neg numbered]
    have drawn : espRandom w = .ok (w.env.randoms.headD 0,
      { w with env := { w.env with randoms := w.env.randoms.tail } }) := rfl
    exact (completes_next drawn).trans (accepts _ _ rfl)

/-! ### SUBSCRIBE and UNSUBSCRIBE -/

/-- A payload of this length is a list of filters that all come to their end. -/
def Walked {F σ : Type} (ready : F → World → Prop) (step : F → σ → Worker σ) (encode : F → List UInt8) (len : UInt16)
    (rest : List UInt8) (s : σ) (w : World) : Prop :=
  ∃ entries : List F, entries.flatMap encode <+: rest ∧ len = .ofNat (entries.flatMap encode).length ∧
    Filters.Ready ready step entries s w

section Loops
variable {pos turns : Nat} {len : UInt16} {rest : List UInt8} {suback suback' : Myvector UInt8}

theorem subscribeLoop_ends (left : Left w.buf pos rest) (short : rest.length < buffSize) :
    Ends w (subscribeLoop sock buffSize pos len suback) ↔ Walked (Filters.Subscribes sock)
      (fun entry => subscribeTopic sock entry.1 entry.2) Filters.encodeSubscription len rest suback w := by
  refine Iff.trans ?_ ((Filters.subscribe_payload sock).completes_iff left short)
  exact ⟨fun ⟨a, t, ran, _⟩ => ⟨a, t, ran⟩, fun ⟨a, t, ran⟩ => ends_of_ok ran⟩

theorem unsubscribeLoop_ends (left : Left w.buf pos rest) (short : rest.length < buffSize) :
    Ends w (unsubscribeLoop sock buffSize pos len) ↔ Walked (Filters.Unsubscribes sock)
      (fun topic (_ : Unit) => unsubscribeTopic sock topic) field len rest () w := by
  refine Iff.trans ?_ ((Filters.unsubscribe_payload sock).completes_iff (s := ()) left short)
  exact ⟨fun ⟨a, t, ran, _⟩ => ⟨a, t, ran⟩, fun ⟨a, t, ran⟩ => ends_of_ok ran⟩

theorem subscribeTopic_size {topic : Key} {reqQos : UInt8}
    (ran : subscribeTopic sock topic reqQos suback w = .ok (suback', w')) :
    suback.size ≤ suback'.size ∧ suback'.size ≤ suback.size + 1 := by
  rw [subscribeTopic, sockAt_bind_ok] at ran
  obtain ⟨addr, client, attached, held, ran⟩ := deref_bind_ok ran
  rw [get_bind_ok] at ran
  obtain ⟨result, subscribed, ran⟩ := check_bind_ok ran
  rw [onHeap_bind_ok] at ran
  obtain ⟨⟨⟩, w₁, changed, ran⟩ := bind_ok.mp ran
  rw [log_bind_ok, onHeap_bind_ok] at ran
  obtain ⟨⟨⟩, w₂, sent, ran⟩ := bind_ok.mp ran
  obtain ⟨rfl, -⟩ := pure_ok.mp ran
  unfold Myvector.pushBack
  split
  · split
    · simp [Myvector.size]
    · exact ⟨Nat.le_refl _, Nat.le_succ _⟩
  · simp [Myvector.size]

/-- A SUBACK grows by one code for a filter at most. -/
theorem subscribeLoop_size (ran : subscribeLoop sock turns pos len suback w = .ok (suback', w')) :
    suback.size ≤ suback'.size ∧ suback'.size ≤ suback.size + turns := by
  induction turns generalizing pos len suback w with
  | zero => exact absurd ran fault_ok
  | succ turns ih =>
    unfold subscribeLoop at ran
    split at ran
    · obtain ⟨rfl, -⟩ := pure_ok.mp ran
      omega
    · obtain ⟨topicLen, w₁, -, ran⟩ := bind_ok.mp ran
      obtain ⟨topic, w₂, -, ran⟩ := bind_ok.mp ran
      obtain ⟨reqQos, w₃, -, ran⟩ := bind_ok.mp ran
      obtain ⟨grown, w₄, stepped, ran⟩ := bind_ok.mp ran
      have first := subscribeTopic_size stepped
      have later := ih ran
      omega

end Loops

/-- The length of a SUBACK is written where it is: it needs no second byte, or
there is room for one. -/
def Roomy (suback : Myvector UInt8) : Prop := suback.size < 130 ∨ suback.size < suback.capacity

section Length
variable {suback : Myvector UInt8}

section
variable (large : 4 ≤ suback.size) (small : suback.size ≤ 4 + buffSize)
include large small

theorem subackLength_roomy (roomy : Roomy suback) :
    ∃ v, subackLength 4 1 2 (suback.size - 2).toUInt16 suback w = .ok (some v, w) := by
  have buffer : buffSize = 1024 := rfl
  have number : (Nat.toUInt16 (suback.size - 2)).toNat = suback.size - 2 := Nat.mod_eq_of_lt (by omega)
  by_cases short : suback.size < 130
  · exact ⟨_, Suback.subackLength_last (by omega)⟩
  · have quotient : (Nat.toUInt16 (suback.size - 2) / 128).toNat = (suback.size - 2) / 128 := by
      rw [UInt16.toNat_div, number]
      rfl
    rw [Suback.subackLength_second (by omega) (show 2 < suback.size by omega), if_pos (roomy.resolve_left short)]
    exact ⟨_, Suback.subackLength_last (by omega)⟩

theorem subackLength_moves (full : ¬ Roomy suback) :
    subackLength 4 1 2 (suback.size - 2).toUInt16 suback w =
      if w.env.heap.alloc.1 then .error .nullDeref else .ok (none, withHeap w w.env.heap.alloc.2) := by
  have buffer : buffSize = 1024 := rfl
  have number : (Nat.toUInt16 (suback.size - 2)).toNat = suback.size - 2 := Nat.mod_eq_of_lt (by omega)
  rw [Roomy, not_or] at full
  rw [Suback.subackLength_second (by omega) (show 2 < suback.size by omega), if_neg full.2]

end
end Length

end MqttBroker.Completion
