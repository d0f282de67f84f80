import MqttBroker.Worker.Leftovers
import MqttBroker.Worker.Runs

/-! Handling that completes on a buffer that ends with the packet has read no
byte behind it, so the packet has all that its branch reads. -/
namespace MqttBroker.Footprint
open Logic Protocol Worker Decoding Rejection Filters Leftovers World

variable {w w' : World} {pos len : Nat} {rest : List UInt8} {α β : Type} {b : β}

/-! ### Reads that complete -/

theorem inside_byteAt {f : UInt8 → Worker β} {next : UInt8 → List UInt8 → Prop} (left : Left w.buf pos rest)
    (ran : (byteAt pos >>= f) w = .ok (b, w')) (agrees : ∀ byte behind, Left w.buf (pos + 1) behind →
      f byte w = .ok (b, w') → next byte behind) : First rest next := by
  cases rest with
  | nil =>
    rw [bind_of_error (byteAt_cut left)] at ran
    cases ran
  | cons byte behind =>
    rw [bind_of_ok (byteAt_holds left.holds)] at ran
    exact agrees byte behind left.tail ran

theorem inside_ntohsAt {f : UInt16 → Worker β} {next : Nat → List UInt8 → Prop} (left : Left w.buf pos rest)
    (ran : (ntohsAt pos >>= f) w = .ok (b, w')) (agrees : ∀ (len : UInt16) (behind : List UInt8),
      Left w.buf (pos + 2) behind → f len w = .ok (b, w') → next len.toNat behind) : Prefixed rest next := by
  obtain ⟨len, w₁, read, next_ran⟩ := bind_ok.mp ran
  obtain ⟨rfl, high, low, behind, rfl, number, left⟩ := ntohsAt_ok left read
  have agreed := agrees len behind left next_ran
  rw [number] at agreed
  exact agreed

theorem inside_rangeAt {f : List UInt8 → Worker β} (left : Left w.buf pos rest)
    (ran : (rangeAt pos len >>= f) w = .ok (b, w')) :
    len ≤ rest.length ∧ Left w.buf (pos + len) (rest.drop len) ∧ f (rest.take len) w = .ok (b, w') := by
  obtain ⟨bytes, w₁, read, next_ran⟩ := bind_ok.mp ran
  obtain ⟨rfl, inside, rfl⟩ := rangeAt_ok left read
  exact ⟨inside, left.drop inside, next_ran⟩

theorem inside_matchesAt {m : Worker β} {c : β} {next : List UInt8 → Prop} (bytes : List UInt8)
    (left : Left w.buf pos rest)
    (ran : (matchesAt pos bytes >>= fun same => if !same then pure c else m) w = .ok (b, w'))
    (agrees : ∀ behind, Left w.buf (pos + bytes.length) behind → m w = .ok (b, w') → next behind) :
    Compared bytes rest next := by
  induction bytes generalizing pos rest with
  | nil => exact agrees rest left ran
  | cons byte bytes ih =>
    rw [matchesAt, bind_assoc] at ran
    cases rest with
    | nil =>
      rw [bind_of_error (byteAt_cut left)] at ran
      cases ran
    | cons first behind =>
      rw [bind_of_ok (byteAt_holds left.holds)] at ran
      by_cases differs : first ≠ byte
      · exact .inl differs
      · rw [if_neg differs] at ran
        refine .inr (ih left.tail ran fun behind left => agrees behind ?_)
        rw [List.length_cons, Nat.add_comm bytes.length 1, ← Nat.add_assoc]
        exact left

theorem inside_stored {m : UInt16 → Myvector UInt8 → Worker β} {c : β} {next : Heap → List UInt8 → Prop}
    (left : Left w.buf pos rest)
    (ran : (ntohsAt pos >>= fun len => vectorAt (pos + 2) len.toNat >>= fun v =>
      if v.size ≠ len.toNat then pure c else m len v) w = .ok (b, w'))
    (agrees : ∀ (len : UInt16) (v : Myvector UInt8) heap behind, Left w.buf (pos + 2 + len.toNat) behind →
      m len v (withHeap w heap) = .ok (b, w') → next heap behind) : Stored w.env.heap rest next := by
  refine inside_ntohsAt left ran fun len behind left ran => ?_
  by_cases empty : len.toNat = 0
  · have fits : ¬ ({} : Myvector UInt8).size ≠ len.toNat := not_not_intro empty.symm
    rw [vectorAt, if_pos empty, pure_bind, if_neg fits] at ran
    rw [if_pos empty]
    exact agrees len {} w.env.heap behind (by rw [empty]; exact left) ran
  · have allocated : onHeap Heap.alloc w = .ok (w.env.heap.alloc.1, withHeap w w.env.heap.alloc.2) := rfl
    rw [vectorAt, if_neg empty, bind_assoc, bind_of_ok allocated] at ran
    rw [if_neg empty]
    by_cases memory : w.env.heap.alloc.1
    · rw [if_pos memory, bind_assoc] at ran
      rw [if_pos memory]
      obtain ⟨inside, left, ran⟩ := inside_rangeAt (w := withHeap w w.env.heap.alloc.2) left ran
      have fits : ¬ Myvector.size ⟨behind.take len.toNat, len.toNat⟩ ≠ len.toNat :=
        not_not_intro (List.length_take_of_le inside)
      rw [pure_bind, if_neg fits] at ran
      exact ⟨inside, agrees len _ _ _ left ran⟩
    · rw [if_neg memory]
      trivial

/-! ### CONNECT -/

theorem inside_checkPasswordAt {username : List UInt8} {accepted : Bool} (left : Left w.buf pos rest)
    (ran : checkPasswordAt username pos len w = .ok (accepted, w')) :
    w.env.heap.alloc.1 = true → len ≤ rest.length := by
  intro memory
  rw [checkPasswordAt, get_bind_ok, if_pos memory] at ran
  exact (inside_rangeAt left ran).1

theorem inside_readCredentials {flags : UInt8} {accepted : Bool} (left : Left w.buf pos rest)
    (ran : (if flags &&& 0x80 ≠ 0 then readCredentials pos (flags &&& 0x40 ≠ 0) else pure true) w =
      .ok (accepted, w')) : CredentialsInside flags w.env.heap rest := by
  intro named
  rw [if_pos named] at ran
  refine inside_ntohsAt left ran fun len behind left ran => ?_
  obtain ⟨inside, left, ran⟩ := inside_rangeAt left ran
  refine ⟨inside, fun guarded => ?_⟩
  dsimp only at ran
  rw [if_pos (decide_eq_true guarded)] at ran
  exact inside_ntohsAt left ran fun _ _ left ran => inside_checkPasswordAt left ran

theorem inside_readOptions {flags : UInt8} {will : Will} {ret : MqttConnReturn × Will}
    (willed : will.presenceFlag = true ↔ flags &&& 0x04 ≠ 0) (left : Left w.buf pos rest)
    (ran : readOptions pos flags will w = .ok (ret, w')) : OptionsInside flags w.env.heap rest := by
  have credentials {w : World} {pos : Nat} {rest : List UInt8} (will : Will) (left : Left w.buf pos rest)
      (ran : (do
        if ← (if flags &&& 0x80 ≠ 0 then readCredentials pos (flags &&& 0x40 ≠ 0) else pure true) then
          pure (if flags &&& 0x02 ≠ 0 then MqttConnReturn.cleanSession else .uncleanSession, will)
        else pure (.disconnect, {})) w = .ok (ret, w')) : CredentialsInside flags w.env.heap rest := by
    obtain ⟨accepted, w₁, ran, -⟩ := bind_ok.mp ran
    exact inside_readCredentials left ran
  rw [readOptions] at ran
  rw [OptionsInside]
  by_cases present : flags &&& 0x04 ≠ 0
  · rw [if_pos (willed.mpr present), readWill_bind] at ran
    rw [if_pos present]
    refine inside_stored left ran fun topicLen topic heap behind left ran => ?_
    refine inside_stored (w := withHeap w heap) left ran fun msgLen msg heap behind left ran => ?_
    exact credentials (w := withHeap (withHeap w heap) _) _ left ran
  · rw [if_neg (mt willed.mp present), pure_bind] at ran
    rw [if_neg present]
    exact credentials will left ran

theorem inside_connectMqtt {sock : Fin 64} {curPos : Nat} {head : UInt8} {tail body : List UInt8}
    {ret : MqttConnReturn × Will} (first : Left w.buf 0 (head :: tail)) (left : Left w.buf curPos body)
    (ran : connectMqtt sock curPos w = .ok (ret, w')) : ConnectInside w.env.heap head body := by
  rw [connectMqtt, bind_of_ok (byteAt_holds first.holds)] at ran
  dsimp only at ran
  refine or_iff_not_imp_left.mpr fun plain => ?_
  rw [if_neg plain] at ran
  refine .inr (inside_ntohsAt left ran fun len rest left ran => or_iff_not_imp_left.mpr fun four => ?_)
  have same : ¬ len ≠ 4 := not_not_intro (UInt16.toNat_inj.mp (not_not.mp four))
  rw [if_neg same] at ran
  refine inside_matchesAt _ left ran fun rest left ran => inside_byteAt left ran fun level rest left ran => ?_
  refine or_iff_not_imp_left.mpr fun current => ?_
  rw [if_neg current] at ran
  refine inside_byteAt left ran fun flags rest left ran => or_iff_not_imp_left.mpr fun reserved => ?_
  rw [if_neg reserved] at ran
  refine or_iff_not_imp_left.mpr fun willed => ?_
  rw [← not_not (a := flags &&& 0x04 = 0), ← Ne, ← willOfFlags_present, Bool.not_eq_true] at willed
  have bits : ¬ (!(willOfFlags flags).presenceFlag && decide (flags &&& 0x38 ≠ 0)) = true := by
    simpa using willed
  rw [if_neg bits] at ran
  refine inside_ntohsAt left ran fun _ rest left ran => .inr (inside_ntohsAt left ran fun len rest left ran => ?_)
  refine or_iff_not_imp_left.mpr fun named => ?_
  have valid : ¬ (len < 1 ∨ len > 23) := by
    simp only [UInt16.lt_iff_toNat_lt, gt_iff_lt, UInt16.toNat_ofNat]
    omega
  rw [if_neg valid] at ran
  obtain ⟨inside, left, ran⟩ := inside_rangeAt left ran
  rw [setSock_bind_ok] at ran
  exact ⟨inside, inside_readOptions (w := w.setSock sock _) (willOfFlags_present flags) left ran⟩

/-! ### The branches of the dispatcher -/

section Branches
variable {sock : Fin 64} {header : Header} {head : UInt8} {length body buf : List UInt8} {u : Unit}

/-- A program that does not look at the buffer leaves it. -/
theorem blind_buf {m : Worker α} {a : α} (blind : Blind m) (ran : m w = .ok (a, w')) : w'.buf = w.buf := by
  have same : m w = (m w).map (Prod.map id (rebuffed w.buf)) := blind w.buf w
  rw [ran] at same
  have kept : w' = rebuffed w.buf w' := (Prod.mk.inj (Except.ok.inj same)).2
  rw [kept]
  rfl

theorem inside_packetIdAt {id : UInt16} (left : Left w.buf pos rest) (ran : packetIdAt pos w = .ok (id, w')) :
    2 ≤ rest.length := by
  have two : First rest fun _ rest => First rest fun _ _ => True := by
    refine inside_byteAt left ran fun _ rest left ran => inside_byteAt left ran fun _ _ _ _ => trivial
  match rest, two with
  | _ :: _ :: _, _ => simp

theorem inside_publishEvent (received : Received buf header head length body)
    (alone : w.buf = head :: (length ++ body)) (ran : publishEvent sock header w = .ok (u, w')) :
    PublishInside head body := by
  have left : Left w.buf header.curPos body := alone ▸ received.left
  have first : Left w.buf 0 (head :: (length ++ body)) := ⟨[], alone, rfl⟩
  intro qos asked
  rw [publishEvent, bind_of_ok (byteAt_holds first.holds), asked] at ran
  refine inside_ntohsAt left ran fun len rest left ran => ?_
  obtain ⟨inside, left, ran⟩ := inside_rangeAt left ran
  by_cases identified : qos > 0
  · rw [if_pos identified] at ran ⊢
    obtain ⟨packetid, w₁, read, -⟩ := bind_ok.mp ran
    have two := inside_packetIdAt left read
    rw [List.length_drop] at two
    omega
  · rw [if_neg identified]
    exact inside

theorem inside_settle {awaited : PacketState} {settled : PackidStateItem → PackidStateItem} {op : Operation}
    (alone : w.buf = head :: (length ++ body)) (ran : settle sock header awaited settled op w = .ok (u, w')) :
    AckInside w sock awaited (head :: (length ++ body)) := by
  obtain ⟨found, w₁, ran, -⟩ := bind_ok.mp ran
  obtain ⟨packetId, w₂, read, -⟩ := bind_ok.mp ran
  obtain ⟨low, w₃, first, read⟩ := bind_ok.mp read
  obtain ⟨high, w₄, second, -⟩ := bind_ok.mp read
  obtain ⟨-, rfl⟩ := byteAt_ok first
  rw [byteAt, get_bind_ok] at second
  split at second
  · rename_i within
    rw [alone] at within
    exact .inl within
  · exact absurd second fault_ok

/-- The two bytes of the id and a loop over the payload complete for a list of
entries only. -/
theorem inside_payload {F σ : Type} {loop : Nat → Nat → UInt16 → σ → Worker σ}
    {step : F → σ → Worker σ} {encode : F → List UInt8} {s : UInt8 → UInt8 → σ}
    {g : UInt8 → UInt8 → σ → Worker Unit}
    {ready : F → World → Prop} (laws : PayloadLoop loop step encode ready)
    (received : Received buf header head length body)
    (left : Left w.buf header.curPos body) (ran : (do
      let msb ← byteAt header.curPos
      let lsb ← byteAt (header.curPos + 1)
      let s ← loop buffSize (header.curPos + 2)
        (header.packetLength - header.additionalPacketLen.toUInt16 - 2) (s msb lsb)
      g msb lsb s) w = .ok (u, w')) :
    ∃ (msb lsb : UInt8) (entries : List F), body = msb :: lsb :: entries.flatMap encode := by
  have short := received.short
  match same : body with
  | [] =>
    rw [bind_of_error (byteAt_cut left)] at ran
    cases ran
  | [msb] =>
    rw [bind_of_ok (byteAt_holds left.holds), bind_of_error (byteAt_cut left.tail)] at ran
    cases ran
  | msb :: lsb :: payload =>
    rw [bind_of_ok (byteAt_holds left.holds), bind_of_ok (byteAt_holds left.tail.holds), received.left_over] at ran
    rw [List.length_cons, List.length_cons] at short
    obtain ⟨s', w₁, looped, -⟩ := bind_ok.mp ran
    obtain ⟨entries, rfl⟩ := laws.entries left.tail.tail (by omega) looped
    exact ⟨msb, lsb, entries, rfl⟩

theorem inside_subscribeEvent (received : Received buf header head length body)
    (alone : w.buf = head :: (length ++ body)) (ran : subscribeEvent sock header w = .ok (u, w')) :
    SubscribeInside w sock head body := by
  have left : Left w.buf header.curPos body := alone ▸ received.left
  have first : Left w.buf 0 (head :: (length ++ body)) := ⟨[], alone, rfl⟩
  intro reserved memory
  rw [subscribeEvent, bind_of_ok (byteAt_holds first.holds), if_neg (not_not_intro reserved),
    bind_of_ok (reserve_ok memory)] at ran
  obtain ⟨msb, lsb, entries, rfl⟩ :=
    inside_payload (w := withHeap w w.env.heap.alloc.2) (subscribe_payload sock) received left ran
  exact ⟨msb, lsb, entries, [], by rw [List.append_nil], .inl rfl⟩

theorem inside_unsubscribeEvent (received : Received buf header head length body)
    (alone : w.buf = head :: (length ++ body)) (ran : unsubscribeEvent sock header w = .ok (u, w')) :
    UnsubscribeInside w sock head body := by
  have first : Left w.buf 0 (head :: (length ++ body)) := ⟨[], alone, rfl⟩
  rw [unsubscribeEvent, bind_of_ok (byteAt_holds first.holds)] at ran
  obtain ⟨⟨⟩, w₁, dropped, ran⟩ := bind_ok.mp ran
  have kept : w₁.buf = w.buf := by
    refine blind_buf ?_ dropped
    split
    · exact blind_dropConn _ _
    · exact blindRules.done _
  have left : Left w₁.buf header.curPos body := by
    rw [kept, alone]
    exact received.left
  obtain ⟨msb, lsb, topics, rfl⟩ :=
    inside_payload (s := fun _ _ => ()) (unsubscribe_payload sock) received left ran
  exact .inr ⟨msb, lsb, topics, [], by rw [List.append_nil], .inl rfl⟩

theorem inside_dispatch (received : Received buf header head length body)
    (alone : w.buf = head :: (length ++ body)) (named : (w.socks sock).clientid ≠ [])
    (ran : dispatch sock header w = .ok (u, w')) : Inside w sock head length body := by
  have first : Left w.buf 0 (head :: (length ++ body)) := ⟨[], alone, rfl⟩
  rw [dispatch, bind_of_ok (byteAt_holds first.holds)] at ran
  rw [Inside, if_neg named]
  by_cases publish : head &&& 0xF0 = 0x30
  · rw [if_pos publish] at ran ⊢
    exact inside_publishEvent received alone ran
  rw [if_neg publish] at ran ⊢
  by_cases puback : head = 0x40
  · rw [if_pos puback] at ran ⊢
    exact inside_settle alone ran
  rw [if_neg puback] at ran ⊢
  by_cases pubrec : head = 0x50
  · rw [if_pos pubrec] at ran ⊢
    exact inside_settle alone ran
  rw [if_neg pubrec] at ran ⊢
  by_cases subscribe : head &&& 0xF0 = 0x80
  · have other : head ≠ 0x70 ∧ head ≠ 0x62 := by
      constructor <;> rintro rfl <;> exact absurd subscribe (by decide)
    rw [if_neg other.1, if_neg other.2, if_pos subscribe] at ran
    rw [if_pos subscribe]
    exact inside_subscribeEvent received alone ran
  rw [if_neg subscribe]
  by_cases unsubscribe : head &&& 0xF0 = 0xA0
  · have other : head ≠ 0x70 ∧ head ≠ 0x62 := by
      constructor <;> rintro rfl <;> exact absurd unsubscribe (by decide)
    rw [if_neg other.1, if_neg other.2, if_neg subscribe, if_pos unsubscribe] at ran
    rw [if_pos unsubscribe]
    exact inside_unsubscribeEvent received alone ran
  rw [if_neg unsubscribe]
  trivial

theorem inside_handlePacket (received : Received buf header head length body)
    (alone : w.buf = head :: (length ++ body)) (ran : handlePacket sock header w = .ok (u, w')) :
    Inside (noted sock header w) sock head length body := by
  rw [handlePacket, get_bind_ok, log_bind_ok] at ran
  by_cases unnamed : (w.socks sock).clientid = []
  · rw [if_pos unnamed] at ran
    obtain ⟨ret, w₁, ran, -⟩ := bind_ok.mp ran
    rw [Inside]
    refine (if_pos unnamed).mpr ?_
    exact inside_connectMqtt (w := noted sock header w) ⟨[], alone, rfl⟩ (alone ▸ received.left) ran
  · rw [if_neg unnamed] at ran
    exact inside_dispatch (w := noted sock header w) received alone unnamed ran

end Branches

/-! ### A topic that nobody is subscribed to -/

/-- No client is to get a message on this topic. -/
def Unwanted (w : World) (topic : Key) : Prop :=
  ∀ node ∈ w.clientStore.nodes, FanOut.Attached node.data → node.data.isSubscribed topic = .ok emptyQos

/-- A PUBLISH of QoS 0 that is not to be retained, whose topic ends inside the
buffer and is one that nobody is subscribed to, whatever is behind the packet. -/
def Unheard (w : World) (sock : Fin 64) (head : UInt8) (length body : List UInt8) : Prop :=
  (w.socks sock).clientid ≠ [] ∧ head &&& 0xF0 = 0x30 ∧ publishQos head = some 0 ∧ head &&& 0x01 = 0 ∧
    ∀ front, Fronts (head :: (length ++ body)) front →
      Prefixed (front.drop (1 + length.length)) fun len rest => len ≤ rest.length ∧ Unwanted w (rest.take len)

/-- What leaves the worker. -/
def outward : Event → Bool
  | .queued .. | .wrote .. | .closed _ | .started .. => true
  | _ => false

/-- The world without its buffer, and with the events that leave the worker. -/
def visible (w : World) : World := { w with buf := [], trace := w.trace.filter outward }

/-- A message that nobody wants is queued for nobody. -/
theorem fanOut_unwanted {p : FanOut.Publication} {stamp j : Nat} {nodes : List (Node Client)}
    (unwanted : ∀ node ∈ nodes, FanOut.Attached node.data → node.data.isSubscribed p.topic = .ok emptyQos) :
    fanOut p.topic p.frame p.qos p.packetId p.publisher stamp j nodes = pure () := by
  induction nodes with
  | nil => rfl
  | cons node rest ih =>
    obtain ⟨clientid, client⟩ := node
    obtain ⟨here, later⟩ := List.forall_mem_cons.mp unwanted
    by_cases attached : FanOut.Attached client
    · rw [FanOut.fanOut_attached attached (here attached), if_pos rfl]
      exact ih later
    · rw [FanOut.fanOut_detached attached]
      exact ih later

/-- A message that nobody wants comes to its end, with the message in the table
for as long as the call takes. -/
theorem publishByTopic_unwanted {p : FanOut.Publication} (unwanted : Unwanted w p.topic) :
    publishByTopic p.topic p.frame p.qos p.packetId p.publisher w = .ok ((),
      match (FanOut.added w p).2.1.get p.packetId with
      | none => FanOut.entered w p
      | some j => (FanOut.begun w p).countDown j p.packetId) := by
  rw [FanOut.publishByTopic_entered]
  cases (FanOut.added w p).2.1.get p.packetId with
  | none => rfl
  | some j =>
    refine log_bind_ok.mpr ?_
    rw [fanOut_unwanted unwanted, pure_bind]
    exact countDown_ok.mpr rfl

theorem visible_countDown (w : World) (j : Nat) (packetId : UInt16) : visible (w.countDown j packetId) =
    { visible w with publishMsgStore := (w.countDown j packetId).publishMsgStore } := by
  simp [visible, World.countDown, World.log, outward]

/-- Which topic it is that nobody wants is not seen from outside. -/
theorem unwanted_unseen {p : FanOut.Publication} {topic : Key} {front : List UInt8} {trace : List Event}
    (same : trace.filter outward = w.trace.filter outward) (unwanted : Unwanted w p.topic)
    (unwanted' : Unwanted w topic) :
    (publishByTopic topic p.frame p.qos p.packetId p.publisher { w with buf := front, trace := trace }).map
        (Prod.map id visible) =
      (publishByTopic p.topic p.frame p.qos p.packetId p.publisher w).map (Prod.map id visible) := by
  have there := publishByTopic_unwanted (p := { p with topic := topic })
    (w := { w with buf := front, trace := trace }) unwanted'
  have table : FanOut.added { w with buf := front, trace := trace } { p with topic := topic } = FanOut.added w p := rfl
  rw [publishByTopic_unwanted unwanted, there, table]
  refine congrArg (fun seen => Except.ok ((), seen)) ?_
  have entered : visible (FanOut.entered { w with buf := front, trace := trace } { p with topic := topic }) =
      visible (FanOut.entered w p) := by
    simp [visible, FanOut.entered, World.log, outward, same, table]
  dsimp only
  cases (FanOut.added w p).2.1.get p.packetId with
  | none => exact entered
  | some j =>
    have begun : visible (FanOut.begun { w with buf := front, trace := trace } { p with topic := topic }) =
        visible (FanOut.begun w p) := by
      simp [visible, FanOut.begun, FanOut.entered, World.log, outward, same, table]
    simp only [visible_countDown, begun]
    rfl

/-! ### Packets on their own -/

/-- The packet is handled in the same way whatever else is in the buffer: the
same writes, requests, tables and sessions, or the same fault. -/
def Alone (sock : Fin 64) (header : Header) (packet : List UInt8) (w : World) : Prop :=
  ∀ front front', Fronts packet front → Fronts packet front' →
    (handlePacket sock header { w with buf := front }).map (Prod.map id visible) =
      (handlePacket sock header { w with buf := front' }).map (Prod.map id visible)

section Packets
variable {sock : Fin 64} {header : Header} {head : UInt8} {length body : List UInt8}

/-- The world in which a message of QoS 0 is distributed. -/
def distributes (sock : Fin 64) (topic frame front : List UInt8) (w : World) : World := { w with
  buf := front
  env := { w.env with randoms := w.env.randoms.tail, sends := w.env.sends.tail }
  trace := .queued ⟨sock, .read⟩ (w.env.sends.headD true) ::
    .publishing sock (w.socks sock) 0 (w.env.randoms.headD 0) topic frame ::
    .received sock (w.socks sock) frame :: w.trace }

/-- Handling such a PUBLISH comes down to distributing it. -/
theorem handlePacket_unheard (received : Received w.buf header head length body)
    (unheard : Unheard w sock head length body) {front : List UInt8}
    (begins : Fronts (head :: (length ++ body)) front) :
    ∃ topic, Unwanted w topic ∧ handlePacket sock header { w with buf := front } =
      publishByTopic topic ((head :: (length ++ body)).take header.packetLength.toNat) 0 (w.env.randoms.headD 0)
        (some ⟨(w.socks sock).tls, (w.socks sock).clientid⟩)
        (distributes sock topic ((head :: (length ++ body)).take header.packetLength.toNat) front w) := by
  obtain ⟨named, publish, asked, plain, cut⟩ := unheard
  replace cut := cut front begins
  have size : (head :: (length ++ body)).length ≤ front.length := begins.1.length_le
  rw [List.length_cons, List.length_append] at size
  rw [← received.curPos] at cut
  have left : Left front header.curPos (front.drop header.curPos) := by
    refine ⟨front.take header.curPos, (List.take_append_drop _ _).symm, List.length_take_of_le ?_⟩
    rw [received.curPos]
    omega
  have taken := received.taken begins.1
  have first : Left front 0 front := left_whole front
  obtain ⟨back, rfl⟩ := begins.1
  match rest : List.drop header.curPos (head :: (length ++ body) ++ back), left, cut with
  | high :: low :: behind, left, cut =>
    obtain ⟨inside, unwanted⟩ := cut
    refine ⟨behind.take (256 * high.toNat + low.toNat), unwanted, ?_⟩
    have qos : ¬ (0 : UInt8) > 0 := by decide
    have kept : ¬ head &&& 0x01 ≠ 0 := not_not_intro plain
    have whole : header.packetLength.toNat ≤ (head :: (length ++ body) ++ back).length := by
      have inside := received.inside
      rw [List.length_append, List.length_cons, List.length_append]
      omega
    have opened : handlePacket sock header { w with buf := head :: (length ++ body) ++ back } =
        dispatch sock header ({ w with buf := head :: (length ++ body) ++ back }.log
          (.received sock (w.socks sock) ((head :: (length ++ body) ++ back).take header.packetLength.toNat))) := by
      change (if (w.socks sock).clientid = [] then connectEvent sock header.curPos else dispatch sock header) _ = _
      rw [if_neg named]
    rw [opened, taken, dispatch, bind_of_ok (byteAt_holds first.holds), if_pos publish, publishEvent,
      bind_of_ok (byteAt_holds first.holds), asked]
    dsimp only
    rw [bind_of_ok (ntohsAt_holds left.holds), word_toNat, bind_of_ok (rangeAt_left left.tail.tail inside), if_neg qos]
    have drawn (v : World) : espRandom v = .ok (v.env.randoms.headD 0,
      { v with env := { v.env with randoms := v.env.randoms.tail } }) := rfl
    have frame {v : World} (buf : v.buf = head :: (length ++ body) ++ back) :
        rangeAt 0 header.packetLength.toNat v = .ok ((head :: (length ++ body)).take header.packetLength.toNat, v) := by
      rw [← taken, ← buf]
      exact rangeAt_left (left_whole v.buf) (buf ▸ whole)
    rw [bind_of_ok (drawn _), bind_of_ok (frame rfl), if_neg kept]
    rfl

theorem unheard_alone (received : Received w.buf header head length body)
    (unheard : Unheard w sock head length body) : Alone sock header (head :: (length ++ body)) w := by
  intro front front' begins begins'
  obtain ⟨topic, unwanted, ran⟩ := handlePacket_unheard received unheard begins
  obtain ⟨topic', unwanted', ran'⟩ := handlePacket_unheard received unheard begins'
  rw [ran, ran']
  let packet := (head :: (length ++ body)).take header.packetLength.toNat
  let p : FanOut.Publication :=
    ⟨topic', packet, 0, w.env.randoms.headD 0, some ⟨(w.socks sock).tls, (w.socks sock).clientid⟩⟩
  have same : (distributes sock topic packet front w).trace.filter outward =
      (distributes sock topic' packet front' w).trace.filter outward := rfl
  exact unwanted_unseen (p := p) (w := distributes sock topic' packet front' w) same unwanted' unwanted

theorem inside_alone (received : Received w.buf header head length body)
    (inside : Inside (noted sock header w) sock head length body) :
    Alone sock header (head :: (length ++ body)) w := by
  intro front front' begins begins'
  have noting : noted sock header { w with buf := front } = rebuffed front (noted sock header w) := by
    have same := (received.taken begins.1).trans (received.taken received.begins).symm
    change World.log _ (.received _ _ (front.take _)) = _
    rw [same]
    rfl
  have there : Received front header head length body := { received with begins := begins.1 }
  have unseen := unseen_handlePacket (w := { w with buf := front }) sock there
    (by rw [noting, inside_rebuffed]; exact inside) begins front' begins'
  change handlePacket sock header { w with buf := front' } = _ at unseen
  rw [unseen]
  cases handlePacket sock header { w with buf := front } <;> rfl

end Packets

/-- The worker after a CONNECT, with more bytes that arrive. -/
def connectedWith (bytes : List UInt8) (shows : Header → World → Bool) (w : World) : Bool :=
  match readPacket { w with env := { inbound := [bytes] } } with
  | .ok (some header, w) => shows header w
  | _ => false

theorem reached_with (bytes : List UInt8) (shows : Header → World → Bool)
    (shown : ((initial .clean).run [accepting 1, reading 1 (connectPacket [97] 2)]).toOption.any
      (connectedWith bytes shows) = true) :
    ∃ w₀ header w, Reachable w₀ ∧
      readPacket { w₀ with env := { inbound := [bytes] } } = .ok (some header, w) ∧ shows header w = true := by
  obtain ⟨w₀, -, reachable, shown⟩ := reached_run _ _ _ shown
  unfold connectedWith at shown
  split at shown
  · rename_i header w read
    exact ⟨w₀, header, w, reachable, read, shown⟩
  · cases shown

/-- The packet ids of the items of socket 1. -/
def idsAfter (ran : Except Fault (Unit × World)) : Option (List UInt16) :=
  ran.toOption.map fun done => (done.2.items 1).map (·.packetId)

end MqttBroker.Footprint
