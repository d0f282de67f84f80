import MqttBroker.Worker.Arrival

/-! When an event comes to its end and ends well: the connection is dropped and
its socket left alone, or it is kept and asked for. The condition is on the
packet, the tables and what the outside world answers. -/
namespace MqttBroker.Endings
open Logic Protocol Worker World Conclusion Rejection Decoding Completion Arrival

variable {w w₀ w₁ w' : World} {sock : Fin 64} {header : Header} {α : Type}

/-- The run comes to its end, and the event that began in `w₀` ends well with
it. -/
abbrev Concludes (sock : Fin 64) (w₀ w : World) (m : Worker Unit) : Prop :=
  Completes w m fun _ w' => Concluded sock w₀ w'

/-- The connection is dropped to the end, and its will does not come back to its
socket. -/
def Leaves (w : World) (sock : Fin 64) (sendwill : Bool) : Prop := Droppable w sock sendwill ∧ Unheard sock sendwill w

theorem dropConn_concludes (first : StaysOpen sock w₀ w) {sendwill : Bool} :
    Concludes sock w₀ w (dropConn sock sendwill) ↔ Leaves w sock sendwill :=
  (completes_settled fun _ _ ran => dropConn_concluded_iff first ran).trans (and_congr_left fun _ => dropConn_ends)

/-- A run that asks for the next event only has to come to its end. -/
theorem asking_concludes (first : StaysOpen sock w₀ w) {m : Worker Unit}
    (asks : ∀ u w', m w = .ok (u, w') → Asked sock w w') : Concludes sock w₀ w m ↔ Ends w m :=
  completes_congr fun u w' ran => iff_true_intro (.preceded first (asks u w' ran).concluded)

/-- A client without a will only has to be stored and, if its session ends, to be
erased. -/
theorem leaves_unwilling {addr : Nat} {client : Client} (attached : (w.socks sock).client = some addr)
    (held : w.clientAt addr = some client) (unwilling : client.will.presenceFlag = false)
    (erases : client.cleanSession = true → ∃ store, w.clientStore.erase (w.socks sock).clientid = .ok store)
    (sendwill : Bool) : Leaves w sock sendwill := by
  have releasable : Releasable w sock := by
    intro addr' attached'
    obtain rfl := Option.some.inj (attached.symm.trans attached')
    exact ⟨client, held, erases⟩
  refine ⟨⟨releasable, ?_⟩, ?_⟩
  all_goals
    intro addr' client' attached' held' willed
    obtain rfl := Option.some.inj (attached.symm.trans attached')
    obtain rfl := Option.some.inj (held.symm.trans held')
    rw [unwilling] at willed
    cases willed

theorem not_concludes {m : Worker Unit} (never : ∀ u w', m w = .ok (u, w') → ¬ Concluded sock w₀ w') :
    ¬ Concludes sock w₀ w m :=
  fun ⟨u, w', ran, ends⟩ => never u w' ran ends

theorem StaysOpen.trans (first : StaysOpen sock w₀ w) (rest : StaysOpen sock w w₁) : StaysOpen sock w₀ w₁ :=
  trace_trans first rest

theorem StaysOpen.quiet (first : StaysOpen sock w₀ w) (quiet : Quiet w w₁) : StaysOpen sock w₀ w₁ :=
  StaysOpen.trans first (Passes.quiet quiet)

/-! ### PUBLISH -/

/-- A PUBLISH is dropped, or accepted, to the end. -/
def PublishEnds (w : World) (sock : Fin 64) (header : Header) : Prop :=
  match publishQos (w.buf.getD 0 0) with
  | none => Leaves w sock true
  | some qos => Publishes w sock header (w.buf.getD 0 0) qos

theorem publishEvent_asks {qos : UInt8} (valid : publishQos (w.buf.getD 0 0) = some qos) {u : Unit}
    (ran : publishEvent sock header w = .ok (u, w')) : Asked sock w w' := by
  obtain ⟨head, w₁, read, ran⟩ := bind_ok.mp ran
  obtain ⟨rfl, rfl⟩ := byteAt_ok read
  rw [valid] at ran
  refine asks_bind (passes_quiet (quiet_ntohsAt _)) (fun topicLen => ?_) _ _ _ ran
  refine asks_bind (passes_quiet (quiet_rangeAt _ _)) fun topic => ?_
  refine asks_bind ?_ fun packetid => ?_
  · split
    · exact passes_quiet (quiet_packetIdAt _)
    · exact passes_quiet quiet_random
  refine asks_bind (passes_quiet (quiet_rangeAt _ _)) fun frame => ?_
  refine asks_bind (passes_quiet (quiet_sockAt _)) fun sockst => ?_
  refine asks_bind (passes_log trivial) fun _ => ?_
  refine asks_bind ?_ fun _ => ?_
  · split
    · exact passes_retainMessage _ _ _ _
    · exact passes_pure _
  intro w u w' ran
  obtain ⟨⟨⟩, mid, replied, ran⟩ := bind_ok.mp ran
  exact (asked_reply _ _ _ _ _ replied).continued (passes_publishByTopic _ _ _ _ _ _ _ _ ran)

theorem publishEvent_concludes (first : StaysOpen sock w₀ w) (filled : 0 < w.buf.length)
    (inside : header.curPos ≤ w.buf.length) (fits : header.packetLength.toNat ≤ w.buf.length) :
    Concludes sock w₀ w (publishEvent sock header) ↔ PublishEnds w sock header := by
  unfold PublishEnds
  cases valid : publishQos (w.buf.getD 0 0) with
  | none =>
    refine (completes_next (byteAt_eq filled)).trans ?_
    rw [valid]
    exact dropConn_concludes first
  | some qos =>
    refine (asking_concludes first fun _ _ => publishEvent_asks valid).trans ?_
    exact publishes_iff valid rfl filled inside fits

/-! ### Acknowledgements -/

/-- An item of the socket waits for this acknowledgement. -/
def Awaited (w : World) (sock : Fin 64) (awaited : PacketState) : Prop :=
  ∃ item ∈ w.items sock, item.packetId = ackId w ∧ item.state = awaited

/-- It has not the length of an acknowledgement. -/
def Mislengthed (w : World) (header : Header) : Prop := header.packetLength > 4 ∨ w.buf.getD 1 0 ≠ 2

instance : Decidable (Mislengthed w header) := inferInstanceAs (Decidable (_ ∨ _))

/-- A PUBACK or a PUBREC has the right length and an item that waits for it, or
its connection is dropped. -/
def SettleEnds (w : World) (sock : Fin 64) (header : Header) (awaited : PacketState) : Prop :=
  Awaited w sock awaited ∧ ¬ Mislengthed w header ∨ ¬ Resent w sock header awaited ∧ Leaves w sock true

/-- So has a PUBCOMP or a PUBREL. -/
def AdvanceEnds (w : World) (sock : Fin 64) (header : Header) (awaited : PacketState) : Prop :=
  Awaited w sock awaited ∧ ¬ Mislengthed w header ∨ Leaves w sock true

section Acknowledgements
variable {awaited : PacketState} {settled : PackidStateItem → PackidStateItem} {op : Operation}

theorem findItem_run (sock : Fin 64) (awaited : PacketState) (filled : 3 < w.buf.length) :
    (∃ item i, findItem sock awaited w =
        .ok ((ackId w, some (item, i)), w.log (.acked sock (w.socks sock) (ackId w) item)) ∧
      Awaited w sock awaited) ∨
    findItem sock awaited w = .ok ((ackId w, none), w) ∧ ¬ Awaited w sock awaited := by
  have read : packetIdAt 2 w = .ok (ackId w, w) := by
    rw [packetIdAt, bind_of_ok (byteAt_eq (by omega)), bind_of_ok (byteAt_eq filled)]
    rfl
  cases found : (w.items sock).zipIdx.find? fun entry => entry.1.packetId = ackId w ∧ entry.1.state = awaited with
  | none =>
    have ran : findItem sock awaited w = .ok ((ackId w, none), w) := by
      rw [findItem, bind_of_ok read, bind_of_ok (get_run w), found]
      rfl
    refine .inr ⟨ran, fun present => ?_⟩
    obtain ⟨-, -, -, -, exactly⟩ := findItem_search ran
    simpa using exactly.mpr present
  | some entry =>
    have ran : findItem sock awaited w =
        .ok ((ackId w, some entry), w.log (.acked sock (w.socks sock) (ackId w) entry.1)) := by
      rw [findItem, bind_of_ok read, bind_of_ok (get_run w), found]
      rfl
    obtain ⟨-, -, -, -, exactly⟩ := findItem_search ran
    exact .inl ⟨entry.1, entry.2, ran, exactly.mp rfl⟩

theorem wrongLength_run (filled : 3 < w.buf.length) :
    wrongLength header w = .ok (decide (Mislengthed w header), w) := by
  rw [wrongLength, bind_of_ok (byteAt_eq (by omega))]
  rfl

/-- An item is written and the next event asked for. -/
theorem answered_concludes (first : StaysOpen sock w₀ w) (asks : op = .read ∨ op = .write) {i : Nat} :
    Concludes sock w₀ w (do
      modify (·.setItem sock i settled)
      let _ ← sendtoque ⟨sock, op⟩) := by
  refine (asking_concludes first fun u w' ran => ?_).mpr (ends_of_ok rfl)
  exact asks_bind (passes_setItem _ _ _) (fun _ => asks_request asks) _ _ _ ran

theorem acked_stays (first : StaysOpen sock w₀ w) {item : PackidStateItem} :
    StaysOpen sock w₀ (w.log (.acked sock (w.socks sock) (ackId w) item)) :=
  StaysOpen.trans first ⟨[_], rfl, by simp [Open]⟩

theorem settle_concludes (first : StaysOpen sock w₀ w) (begun : Passes (Mute sock) w₀ w) (filled : 3 < w.buf.length)
    (asks : op = .read ∨ op = .write) :
    Concludes sock w₀ w (settle sock header awaited settled op) ↔ SettleEnds w sock header awaited := by
  rcases findItem_run sock awaited filled with ⟨item, i, found, present⟩ | ⟨found, absent⟩
  swap
  · refine (completes_next found).trans ((dropConn_concludes first).trans ?_)
    have other : ¬ Resent w sock header awaited := fun resent => absent resent.2.1
    rw [SettleEnds, or_iff_right fun both => absent both.1, and_iff_right other]
  have looked : storeGet (ackId w) (w.log (.acked sock (w.socks sock) (ackId w) item)) =
    .ok (w.publishMsgStore.get (ackId w), w.log (.acked sock (w.socks sock) (ackId w) item)) := rfl
  have measured : wrongLength header (w.log (.acked sock (w.socks sock) (ackId w) item)) =
    .ok (decide (Mislengthed w header), w.log (.acked sock (w.socks sock) (ackId w) item)) :=
    wrongLength_run (w := w.log (.acked sock (w.socks sock) (ackId w) item)) filled
  refine (completes_next found).trans ((completes_next looked).trans ((completes_next measured).trans ?_))
  by_cases wrong : Mislengthed w header
  · have unsettled : ¬ (Awaited w sock awaited ∧ ¬ Mislengthed w header) := fun both => both.2 wrong
    rw [if_pos (decide_eq_true wrong), SettleEnds, or_iff_right unsettled]
    cases stored : w.publishMsgStore.get (ackId w) with
    | none =>
      have other : ¬ Resent w sock header awaited := fun resent => resent.2.2 stored
      rw [and_iff_right other]
      exact dropConn_concludes (acked_stays first)
    | some j =>
      -- the message is sent again, and nothing is asked for
      have again : Resent w sock header awaited := ⟨wrong, present, by rw [stored]; exact Option.some_ne_none j⟩
      refine iff_of_false (not_concludes fun u w' ran => ?_) fun both => both.1 again
      dsimp only at ran
      rw [get_bind_ok, log_bind_ok] at ran
      have acked : Passes (Mute sock) w (w.log (.acked sock (w.socks sock) (ackId w) item)) :=
        .log ⟨nofun, not_false⟩
      have resending (w : World) (node : NodePubmap) : Passes (Mute sock) w (w.log (.resending item node)) :=
        .log ⟨nofun, not_false⟩
      have sent := passes_publish (P := Mute sock) tables_mute (fun _ _ _ _ => ⟨nofun, not_false⟩) _ _ _ _ _ _ _
        _ _ _ ran
      exact not_concluded_mute (((begun.trans acked).trans (resending _ _)).trans sent)
  · rw [if_neg (mt of_decide_eq_true wrong)]
    refine iff_of_true ?_ (.inl ⟨present, wrong⟩)
    have counts : Ends (w.log (.acked sock (w.socks sock) (ackId w) item))
      (countDownIf (ackId w) (w.publishMsgStore.get (ackId w))) := countDownIf_ends
    obtain ⟨⟨⟩, w₁, counted, -⟩ := counts
    have kept : StaysOpen sock (w.log (.acked sock (w.socks sock) (ackId w) item)) w₁ :=
      (passes_countDownIf tables_still _ _ _ _ _ counted).stays
    exact (completes_next counted).mpr (answered_concludes (StaysOpen.trans (acked_stays first) kept) asks)

theorem advance_concludes (first : StaysOpen sock w₀ w) (filled : 3 < w.buf.length) (asks : op = .read ∨ op = .write) :
    Concludes sock w₀ w (advance sock header awaited settled op) ↔ AdvanceEnds w sock header awaited := by
  refine (completes_next (wrongLength_run filled)).trans ?_
  by_cases wrong : Mislengthed w header
  · rw [if_pos (decide_eq_true wrong), AdvanceEnds, or_iff_right fun both => both.2 wrong]
    exact dropConn_concludes first
  rw [if_neg (mt of_decide_eq_true wrong)]
  rcases findItem_run sock awaited filled with ⟨item, i, found, present⟩ | ⟨found, absent⟩
  · exact iff_of_true ((completes_next found).mpr (answered_concludes (acked_stays first) asks))
      (.inl ⟨present, wrong⟩)
  · refine (completes_next found).trans ((dropConn_concludes first).trans ?_)
    exact (or_iff_right fun both => absent both.1).symm

end Acknowledgements

/-! ### SUBSCRIBE and UNSUBSCRIBE -/

/-- The SUBACK of these filters is sent, or there is no memory for its length
and the connection is dropped. -/
def SubackEnds (w : World) (sock : Fin 64) (suback : Myvector UInt8) : Prop :=
  Roomy suback ∨ w.env.heap.alloc.1 = false ∧ Leaves (withHeap w w.env.heap.alloc.2) sock true

/-- The filters of a SUBSCRIBE are all entered. -/
def FiltersEnd (w : World) (sock : Fin 64) (header : Header) : Prop :=
  First (w.buf.drop header.curPos) fun msb rest => First rest fun lsb rest =>
    Walked (Filters.Subscribes sock) (fun entry => subscribeTopic sock entry.1 entry.2) Filters.encodeSubscription
      (header.packetLength - header.additionalPacketLen.toUInt16 - 2) rest (Filters.emptySuback msb lsb) w ∧
    ∀ suback w', subscribeLoop sock buffSize (header.curPos + 2)
      (header.packetLength - header.additionalPacketLen.toUInt16 - 2) (Filters.emptySuback msb lsb) w =
        .ok (suback, w') → SubackEnds w' sock suback

/-- A SUBSCRIBE is dropped, or answered, to the end. -/
def SubscribeEnds (w : World) (sock : Fin 64) (header : Header) : Prop :=
  if w.buf.getD 0 0 &&& 0x0F ≠ subscribeReserved then Leaves w sock true
  else if w.env.heap.alloc.1 then FiltersEnd (withHeap w w.env.heap.alloc.2) sock header
  else Leaves (withHeap w w.env.heap.alloc.2) sock true

/-- An UNSUBSCRIBE has the right reserved bits, and its filters are all left. -/
def UnsubscribeEnds (w : World) (sock : Fin 64) (header : Header) : Prop :=
  w.buf.getD 0 0 &&& 0x0F = subscribeReserved ∧
    First (w.buf.drop header.curPos) fun _ rest => First rest fun _ rest =>
      Walked (Filters.Unsubscribes sock) (fun topic (_ : Unit) => unsubscribeTopic sock topic) field
        (header.packetLength - header.additionalPacketLen.toUInt16 - 2) rest () w

theorem asks_answer (sock : Fin 64) (bytes : List UInt8) : Asks sock (do
    let _ ← connWrite sock bytes none
    let _ ← sendtoque ⟨sock, .read⟩) :=
  asks_bind (passes_write fun _ => trivial) fun _ => asks_request (.inl rfl)

theorem suback_concludes (first : StaysOpen sock w₀ w) {suback : Myvector UInt8} (large : 4 ≤ suback.size)
    (small : suback.size ≤ 4 + buffSize) : Concludes sock w₀ w (do
      match ← subackLength 4 1 2 (suback.size - 2).toUInt16 suback with
      | none => dropConn sock true
      | some suback =>
        let _ ← connWrite sock suback.elems none
        let _ ← sendtoque ⟨sock, .read⟩) ↔ SubackEnds w sock suback := by
  by_cases roomy : Roomy suback
  · obtain ⟨v, ran⟩ := subackLength_roomy (w := w) large small roomy
    refine iff_of_true ((completes_next ran).mpr ?_) (.inl roomy)
    exact (asking_concludes first fun _ _ => asks_answer sock v.elems _ _ _).mpr (ends_of_ok rfl)
  · rw [SubackEnds, or_iff_right roomy]
    have ran := subackLength_moves (w := w) large small roomy
    by_cases memory : w.env.heap.alloc.1 = true
    · rw [if_pos memory] at ran
      refine iff_of_false (fun ends => not_completes ran (completes_bind.mp ends)) fun both => ?_
      rw [memory] at both
      cases both.1
    · rw [if_neg memory] at ran
      rw [and_iff_right (Bool.eq_false_iff.mpr memory)]
      exact (completes_next ran).trans (dropConn_concludes (StaysOpen.quiet first ⟨_, _, rfl⟩))

theorem subscribeEvent_concludes (first : StaysOpen sock w₀ w) (sized : w.buf.length = buffSize)
    (inside : header.curPos ≤ w.buf.length) :
    Concludes sock w₀ w (subscribeEvent sock header) ↔ SubscribeEnds w sock header := by
  have filled : 0 < w.buf.length := by
    rw [sized]
    decide
  refine (completes_next (byteAt_eq filled)).trans ?_
  unfold SubscribeEnds
  by_cases wrong : w.buf.getD 0 0 &&& 0x0F ≠ subscribeReserved
  · rw [if_pos wrong, if_pos wrong]
    exact dropConn_concludes first
  rw [if_neg wrong, if_neg wrong]
  by_cases memory : w.env.heap.alloc.1 = true
  swap
  · rw [if_neg memory]
    refine (completes_next (Filters.reserve_failed (Bool.eq_false_iff.mpr memory))).trans ?_
    exact dropConn_concludes (StaysOpen.quiet first ⟨_, _, rfl⟩)
  rw [if_pos memory]
  refine (completes_next (Filters.reserve_ok memory)).trans ?_
  have kept : StaysOpen sock w₀ (withHeap w w.env.heap.alloc.2) := StaysOpen.quiet first ⟨_, _, rfl⟩
  have sized' : (withHeap w w.env.heap.alloc.2).buf.length = buffSize := sized
  generalize withHeap w w.env.heap.alloc.2 = w₁ at kept sized' ⊢
  replace inside : header.curPos ≤ w₁.buf.length := by rwa [sized', ← sized]
  refine completes_byteAt (left_drop inside) fun msb rest left => completes_byteAt left fun lsb rest left => ?_
  have short : rest.length < buffSize := by
    have size := left.length
    omega
  have settled : Concludes sock w₀ w₁ (do
      let suback ← subscribeLoop sock buffSize (header.curPos + 2)
        (header.packetLength - header.additionalPacketLen.toUInt16 - 2) (Filters.emptySuback msb lsb)
      match ← subackLength 4 1 2 (suback.size - 2).toUInt16 suback with
      | none => dropConn sock true
      | some suback =>
        let _ ← connWrite sock suback.elems none
        let _ ← sendtoque ⟨sock, .read⟩) ↔
      Completes w₁ (subscribeLoop sock buffSize (header.curPos + 2)
        (header.packetLength - header.additionalPacketLen.toUInt16 - 2) (Filters.emptySuback msb lsb))
        fun suback w' => SubackEnds w' sock suback := by
    refine completes_bind.trans (completes_congr fun suback w' ran => ?_)
    have sizes := subscribeLoop_size ran
    have four : (Filters.emptySuback msb lsb).size = 4 := rfl
    have looped : StaysOpen sock w₁ w' := (passes_subscribeLoop _ _ _ _ _ _ _ _ ran).stays
    exact suback_concludes (StaysOpen.trans kept looped) (by omega) (by omega)
  refine settled.trans ?_
  rw [← subscribeLoop_ends left short]
  constructor
  · rintro ⟨suback, w', ran, ends⟩
    refine ⟨ends_of_ok ran, fun suback' w'' ran' => ?_⟩
    obtain ⟨rfl, rfl⟩ := Prod.mk.inj (Except.ok.inj (ran.symm.trans ran'))
    exact ends
  · rintro ⟨⟨suback, w', ran, -⟩, ends⟩
    exact ⟨suback, w', ran, ends suback w' ran⟩

theorem unsubscribeEvent_concludes (first : StaysOpen sock w₀ w) (sized : w.buf.length = buffSize)
    (inside : header.curPos ≤ w.buf.length) :
    Concludes sock w₀ w (unsubscribeEvent sock header) ↔ UnsubscribeEnds w sock header := by
  have filled : 0 < w.buf.length := by
    rw [sized]
    decide
  refine (completes_next (byteAt_eq filled)).trans ?_
  unfold UnsubscribeEnds
  have rest_asks : Asks sock (do
      let msb ← byteAt header.curPos
      let _ ← byteAt (header.curPos + 1)
      unsubscribeLoop sock buffSize (header.curPos + 2)
        (header.packetLength - header.additionalPacketLen.toUInt16 - 2)
      let _ ← connWrite sock [0xB0, 2, ← stackByte, msb] none
      let _ ← sendtoque ⟨sock, .read⟩) := by
    refine asks_bind (passes_quiet (quiet_byteAt _)) fun msb => ?_
    refine asks_bind (passes_quiet (quiet_byteAt _)) fun _ => ?_
    refine asks_bind (passes_unsubscribeLoop (fun _ _ => trivial) _ _ _ _) fun _ => ?_
    exact asks_bind (passes_quiet quiet_stackByte) fun _ => asks_answer sock _
  by_cases wrong : w.buf.getD 0 0 &&& 0x0F ≠ subscribeReserved
  · -- the connection is dropped, and the event goes on
    rw [if_pos wrong]
    refine iff_of_false (not_concludes fun u w' ran => ?_) fun both => wrong both.1
    obtain ⟨⟨⟩, w₁, dropped, ran⟩ := bind_ok.mp ran
    obtain ⟨before, begun, -⟩ := first
    exact not_concluded_again (shut_trace true begun) (.preceded (dropConn_passes dropped).stays (rest_asks _ _ _ ran))
  · rw [if_neg wrong, and_iff_right (not_not.mp wrong), pure_bind]
    refine (asking_concludes first (rest_asks w)).trans ?_
    refine completes_byteAt (left_drop inside) fun msb rest left => completes_byteAt left fun lsb rest left => ?_
    have short : rest.length < buffSize := by
      have size := left.length
      omega
    exact (ends_then fun _ _ => ends_of_ok rfl).trans (unsubscribeLoop_ends left short)

/-! ### PINGREQ and DISCONNECT -/

theorem pingEvent_concludes (first : StaysOpen sock w₀ w) : Concludes sock w₀ w (pingEvent sock) :=
  (asking_concludes first fun _ _ => asks_answer sock _ _ _ _).mpr (ends_of_ok rfl)

/-- The client of a DISCONNECT is stored and can be erased. -/
def DisconnectEnds (w : World) (sock : Fin 64) : Prop :=
  ∃ addr client, (w.socks sock).client = some addr ∧ w.clientAt addr = some client ∧
    ∃ store, w.clientStore.erase (w.socks sock).clientid = .ok store

/-- Without its will a connection only has to be dropped to the end. -/
theorem leaves_unwilled : Leaves w sock false ↔ Releasable w sock := by
  have unheard : Unheard sock false w := fun addr client _ _ willed => by simp at willed
  refine (and_iff_left unheard).trans (and_iff_left fun addr client _ _ willed => ?_)
  simp at willed

theorem disconnectEvent_concludes (first : StaysOpen sock w₀ w) :
    Concludes sock w₀ w (disconnectEvent sock) ↔ DisconnectEnds w sock := by
  refine (completes_next (sockAt_run w sock)).trans (completes_deref.trans ?_)
  refine exists_congr fun addr => exists_congr fun client => ?_
  refine and_congr_right fun attached => and_congr_right fun held => ?_
  refine (completes_next (log_run _ _)).trans ?_
  rw [attached]
  let logged := w.log (.disconnecting (w.socks sock).clientid client)
  have written : setClient (some addr) ({ · with cleanSession := true }) logged =
    .ok ((), logged.setClient addr ({ · with cleanSession := true })) := rfl
  have kept : StaysOpen sock w₀ (logged.setClient addr ({ · with cleanSession := true })) :=
    StaysOpen.trans first ⟨[_], rfl, by simp [Open]⟩
  refine (completes_next written).trans ((dropConn_concludes kept).trans (leaves_unwilled.trans ?_))
  have there : (logged.setClient addr ({ · with cleanSession := true })).clientAt addr =
      some { client with cleanSession := true } := by
    refine (clientAt_setClient (f := ({ · with cleanSession := true })) fun _ => rfl).trans ?_
    exact congrArg (Option.map _) held
  have erases : (∃ store, (logged.setClient addr ({ · with cleanSession := true })).clientStore.erase
      (w.socks sock).clientid = .ok store) ↔ ∃ store, w.clientStore.erase (w.socks sock).clientid = .ok store :=
    erase_setClient
  rw [← erases]
  constructor
  · intro releases
    obtain ⟨client', held', erase⟩ := releases addr attached
    obtain rfl := Option.some.inj (there.symm.trans held')
    exact erase rfl
  · intro erase addr' attached'
    obtain rfl := Option.some.inj (attached.symm.trans attached')
    exact ⟨_, there, fun _ => erase⟩

/-! ### The dispatcher -/

/-- A packet of a client is handled to the end; one that no branch is for is
not. -/
def PacketEnds (w : World) (sock : Fin 64) (header : Header) : Prop :=
  let head := w.buf.getD 0 0
  if head &&& 0xF0 = 0x30 then PublishEnds w sock header
  else if head = 0x40 then SettleEnds w sock header .getpuback
  else if head = 0x50 then SettleEnds w sock header .getpubrec
  else if head = 0x70 then AdvanceEnds w sock header .getpubcomp
  else if head = 0x62 then AdvanceEnds w sock header .getpubrel
  else if head &&& 0xF0 = 0x80 then SubscribeEnds w sock header
  else if head &&& 0xF0 = 0xA0 then UnsubscribeEnds w sock header
  else if head &&& 0xF0 = 0xC0 then True
  else if head &&& 0xF0 = 0xE0 then DisconnectEnds w sock
  else False

theorem dispatch_concludes (begun : Passes (Mute sock) w₀ w) (sized : w.buf.length = buffSize)
    (inside : header.curPos ≤ w.buf.length) (fits : header.packetLength.toNat ≤ w.buf.length) :
    Concludes sock w₀ w (dispatch sock header) ↔ PacketEnds w sock header := by
  have first : StaysOpen sock w₀ w := begun.opens
  have filled : 3 < w.buf.length := by
    rw [sized]
    decide
  refine (completes_next (byteAt_eq (by omega))).trans ?_
  unfold PacketEnds
  dsimp only
  split
  · exact publishEvent_concludes first (by omega) inside fits
  split
  · exact settle_concludes first begun filled (.inl rfl)
  split
  · exact settle_concludes first begun filled (.inr rfl)
  split
  · exact advance_concludes first filled (.inl rfl)
  split
  · exact advance_concludes first filled (.inr rfl)
  split
  · exact subscribeEvent_concludes first sized inside
  split
  · exact unsubscribeEvent_concludes first sized inside
  split
  · exact iff_true_intro (pingEvent_concludes first)
  split
  · exact disconnectEvent_concludes first
  · refine iff_of_false (not_concludes fun u w' ran => ?_) id
    rw [(pure_ok.mp ran).2]
    exact not_concluded_mute begun

/-! ### CONNECT -/

/-- The connection of a socket without a client is always dropped to the end. -/
theorem dropConn_free (vacant : (w.socks sock).client = none) : Leaves w sock true := by
  refine ⟨⟨fun addr attached => ?_, fun addr client attached => ?_⟩, fun addr client attached => ?_⟩
  all_goals
    rw [vacant] at attached
    cases attached

theorem acceptConnect_concludes (first : StaysOpen sock w₀ w) (holding : Holding w sock) {clean : Bool} {will : Will}
    {prev : Option Client} : Concludes sock w₀ w (acceptConnect sock clean will prev) :=
  (asking_concludes first fun _ _ => asks_accept _ _ _ _ _ _ _).mpr (acceptConnect_ends.mpr holding)

theorem connectEvent_concludes {curPos : Nat} (first : StaysOpen sock w₀ w) (vacant : (w.socks sock).client = none) :
    Concludes sock w₀ w (connectEvent sock curPos) ↔
      Completes w (connectMqtt sock curPos) (Going (Admits · sock)) := by
  refine completes_bind.trans (completes_congr fun ret w₁ ran => ?_)
  dsimp only
  have first : StaysOpen sock w₀ w₁ := StaysOpen.trans first (passes_connectMqtt _ _ _ _ _ ran).stays
  replace vacant : (w₁.socks sock).client = none := (Refusal.names_connectMqtt _ _ _ _ ran).client.trans vacant
  by_cases refused : ret.1 = .disconnect
  · rw [if_pos refused]
    exact iff_of_true ((dropConn_concludes first).mpr (dropConn_free vacant)) (.inl refused)
  rw [if_neg refused]
  refine Iff.trans ?_ (or_iff_right refused).symm
  refine (completes_next (sockAt_run _ _)).trans ((completes_next (get_run _)).trans (completes_check.trans ?_))
  refine exists_congr fun stored => and_congr_right fun got => ?_
  refine (completes_next (log_run _ _)).trans ?_
  let begun := w₁.log (.connecting sock (w₁.socks sock).clientid (decide (ret.1 = .cleanSession)) stored)
  let attached := begun.setSock sock ({ · with client := stored.map Client.addr })
  have entered : setSock sock ({ · with client := stored.map Client.addr }) begun = .ok ((), attached) := rfl
  refine (completes_next entered).trans ?_
  have kept : StaysOpen sock w₀ attached := StaysOpen.trans first ⟨[_], rfl, by simp [Open]⟩
  have pointer : (attached.socks sock).client = stored.map Client.addr := by rw [setSock_socks]
  cases stored with
  | none =>
    have nobody : ∀ client : Client, none = some client → client.sock ≠ some sock := by
      intro client wrong
      cases wrong
    rw [and_iff_left nobody, imp_iff_right rfl]
    have enters : Enterable attached sock ↔ Enterable w₁ sock := by
      have clientid : (attached.socks sock).clientid = (w₁.socks sock).clientid := by
        rw [setSock_socks]
        rfl
      unfold Enterable
      rw [clientid]
      rfl
    have same : newClient sock (w₁.socks sock).clientid = newClient sock (attached.socks sock).clientid := by
      rw [setSock_socks]
      rfl
    rw [← enters, ← newClient_ends, ← same]
    refine completes_bind.trans (completes_congr fun made w₂ ran => iff_true_intro ?_)
    obtain ⟨unwritten, free⟩ := newClient_trace ran
    have kept : StaysOpen sock w₀ w₂ := StaysOpen.trans kept ⟨[], unwritten, List.forall_mem_nil _⟩
    cases made with
    | true => exact acceptConnect_concludes kept (newClient_held ran)
    | false =>
      refine (dropConn_concludes kept).mpr (dropConn_free ?_)
      rw [free rfl, pointer]
      rfl
  | some client =>
    have somebody : some client = none → Enterable w₁ sock := by
      intro wrong
      cases wrong
    rw [and_iff_right somebody]
    have holding : Holding attached sock := by
      obtain ⟨found, held⟩ := get_held got
      exact ⟨client.addr, found, pointer, held⟩
    by_cases own : client.sock = some sock
    · refine iff_of_false (fun ends => takeOver_stuck own ((completes_bind.mp ends).mono fun _ _ _ => trivial)) ?_
      exact fun other => other client rfl own
    · obtain ⟨w₂, took, holding⟩ := takeOver_runs own holding
      refine iff_of_true ((completes_next took).mpr ?_) fun other same => Option.some.inj same ▸ own
      exact acceptConnect_concludes (StaysOpen.trans kept (takeOver_stays took)) holding

/-! ### The event -/

theorem writeEvent_concludes (first : StaysOpen sock w₀ w) : Concludes sock w₀ w (writeEvent sock) ↔
    ∀ item, (w.items sock).find? (PackidStateItem.Pending ·) = some item → Transmits w sock item := by
  have asks : Asks sock (writeEvent sock) := by
    intro w u w' ran
    rw [writeEvent, get_bind_ok] at ran
    refine asks_bind (passes_writeLoop _ _ _ _ _) (fun more => asks_request ?_) _ _ _ ran
    cases more
    · exact .inl rfl
    · exact .inr rfl
  refine (asking_concludes first (asks w)).trans ((completes_next (get_run w)).trans ?_)
  exact (ends_then fun _ _ => ends_of_ok rfl).trans writeLoop_ends

/-- What has been read of a packet leads to a good end. -/
def ReadEnds (w : World) (sock : Fin 64) : Option Header → Prop
  | none => Leaves w sock true
  | some header =>
    let received := w.log (.received sock (w.socks sock) (w.buf.take header.packetLength.toNat))
    if (w.socks sock).clientid = [] then
      Connects received sock (received.buf.getD 0 0) (received.buf.drop header.curPos)
    else PacketEnds received sock header

/-- The message that the worker is given, with what it reads, leads to a good
end. -/
def Attended (msg : Message) (w : World) : Prop :=
  if msg.op = .write then
    ∀ item, (w.items msg.socket).find? (PackidStateItem.Pending ·) = some item → Transmits w msg.socket item
  else Readable (Framing.arriving w.env.inbound) ∧
    ∀ ret w₁, readPacket w = .ok (ret, w₁) → ReadEnds w₁ msg.socket ret

theorem holds_head (filled : 0 < w.buf.length) : Holds w.buf 0 [w.buf.getD 0 0] := by
  refine ⟨[], w.buf.tail, ?_, rfl⟩
  cases held : w.buf with
  | nil =>
    rw [held] at filled
    cases filled
  | cons byte rest => rfl

theorem readEvent_concludes (unnamed : (w.socks sock).clientid = [] → (w.socks sock).client = none)
    (sized : w.buf.length = buffSize) : Concludes sock w w (readEvent sock) ↔
      Readable (Framing.arriving w.env.inbound) ∧ ∀ ret w₁, readPacket w = .ok (ret, w₁) → ReadEnds w₁ sock ret := by
  have settled : Concludes sock w w (readEvent sock) ↔ Completes w readPacket fun ret w₁ => ReadEnds w₁ sock ret := by
    refine completes_bind.trans (completes_congr fun ret w₁ ran => ?_)
    have quiet := quiet_readPacket _ _ _ ran
    cases ret with
    | none => exact dropConn_concludes (Passes.quiet quiet)
    | some header =>
      obtain ⟨sized', inside, fits⟩ := readPacket_bounds sized ran
      refine (completes_next (get_run _)).trans ((completes_next (log_run _ _)).trans ?_)
      let received := w₁.log (.received sock (w₁.socks sock) (w₁.buf.take header.packetLength.toNat))
      have begun : Passes (Mute sock) w received := (Passes.quiet quiet).trans (.log ⟨nofun, not_false⟩)
      unfold ReadEnds
      dsimp only
      by_cases fresh : (w₁.socks sock).clientid = []
      · rw [if_pos fresh, if_pos fresh]
        have vacant : (received.socks sock).client = none := by
          obtain ⟨env, buf, rfl⟩ := quiet
          exact unnamed fresh
        have filled : 0 < received.buf.length := by
          have size : received.buf.length = buffSize := sized'
          rw [size]
          decide
        have head : Holds received.buf 0 [received.buf.getD 0 0] := holds_head filled
        exact (connectEvent_concludes begun.opens vacant).trans (connectMqtt_iff head (left_drop inside))
      · rw [if_neg fresh, if_neg fresh]
        exact dispatch_concludes begun sized' inside fits
  rw [settled, ← readPacket_ends sized]
  constructor
  · rintro ⟨ret, w₁, ran, ends⟩
    refine ⟨ends_of_ok ran, fun ret' w₂ ran' => ?_⟩
    obtain ⟨rfl, rfl⟩ := Prod.mk.inj (Except.ok.inj (ran.symm.trans ran'))
    exact ends
  · rintro ⟨⟨ret, w₁, ran, -⟩, ends⟩
    exact ⟨ret, w₁, ran, ends ret w₁ ran⟩

theorem handle_mqtt {msg : Message} (phs : (w.socks msg.socket).phs = .mqtt) : handle msg w = mqttPhase msg w := by
  rw [handle, bind_of_ok (sockAt_run _ _), phs]

theorem packetEnds_puback (head : w.buf.getD 0 0 = 0x40) :
    PacketEnds w sock header ↔ SettleEnds w sock header .getpuback := by
  unfold PacketEnds
  dsimp only
  rw [head, if_neg (by decide), if_pos rfl]

/-- A PUBACK of three bytes. -/
def longPuback : Env := (reading 1 (some [0x40, 3, 0, 5, 0])).2

/-- The tests by which a run shows that such a packet drops the connection: the
client of socket 1 has no will and can be erased, and no item waits. -/
def dropsLong (w : World) : Bool :=
  decide (w.buf.length = buffSize) && (w.socks 1).phs == .mqtt && (w.socks 1).clientid != [] && (w.items 1).isEmpty &&
  (match (w.socks 1).client.bind w.clientAt with
    | some client => !client.will.presenceFlag
    | none => false) && (w.clientStore.erase (w.socks 1).clientid).toBool &&
  match readPacket { w with env := longPuback } with
  | .ok (some _, w₁) => w₁.buf.getD 0 0 == 0x40
  | _ => false

/-- A packet that no branch is for only is read. -/
theorem unrecognised_ignored (fresh : (w.socks sock).clientid ≠ []) (read : readPacket w = .ok (some header, w₁))
    (filled : 0 < w₁.buf.length) (unknown : ¬ Recognised (w₁.buf.getD 0 0)) :
    ∃ w', readEvent sock w = .ok ((), w') ∧ ¬ Concluded sock w w' := by
  have quiet := quiet_readPacket _ _ _ read
  let received := w₁.log (.received sock (w₁.socks sock) (w₁.buf.take header.packetLength.toNat))
  have ignored : dispatch sock header received = .ok ((), received) := by
    simp only [Recognised, not_or] at unknown
    obtain ⟨publish, puback, pubrec, pubcomp, pubrel, subscribe, unsubscribe, ping, disconnect⟩ := unknown
    have head : byteAt 0 received = .ok (w₁.buf.getD 0 0, received) := byteAt_eq (w := received) filled
    rw [dispatch, bind_of_ok head, if_neg publish, if_neg puback, if_neg pubrec, if_neg pubcomp, if_neg pubrel,
      if_neg subscribe, if_neg unsubscribe, if_neg ping, if_neg disconnect]
    rfl
  refine ⟨received, ?_, not_concluded_mute ((Passes.quiet quiet).trans (.log ⟨nofun, not_false⟩))⟩
  have named : (w₁.socks sock).clientid ≠ [] := by
    obtain ⟨_, _, rfl⟩ := quiet
    exact fresh
  rw [readEvent, bind_of_ok read]
  dsimp only
  rw [bind_of_ok (get_run _), bind_of_ok (log_run _ _), if_neg named, ignored]

/-- The CONNECT of the client. -/
def secondConnect : Env := (reading 1 (some (connectPacket [97] 2))).2

/-- The tests by which a run shows that it is no packet of a client. -/
def ignoresSecond (w : World) : Bool :=
  (w.socks 1).phs == .mqtt && (w.socks 1).clientid != [] &&
  match readPacket { w with env := secondConnect } with
  | .ok (some _, w₁) => decide (0 < w₁.buf.length ∧ ¬ Recognised (w₁.buf.getD 0 0))
  | _ => false

end MqttBroker.Endings
