import MqttBroker.Worker.Acts
import MqttBroker.Worker.Reading

/-! Every completed event of the worker is a sequence of coarse steps. -/
namespace MqttBroker.Worker
open Logic World

variable {w w' : World} {sock : Fin 64} {α β : Type} {a : α}
  {owed : List Admitted} {masked : Masked}

/-- The worker gets from one state to the other by coarse steps. -/
def Moves (owed : List Admitted) (masked : Masked) (w w' : World) : Prop :=
  Acts ⟨w, owed, masked⟩ ⟨w', owed, masked⟩

theorem Moves.refl (w : World) : Moves owed masked w w := Relation.ReflTransGen.refl

theorem Moves.trans {w₁ w₂ w₃ : World} (first : Moves owed masked w₁ w₂)
    (second : Moves owed masked w₂ w₃) : Moves owed masked w₁ w₃ :=
  Relation.ReflTransGen.trans first second

theorem Moves.session (act : SessionAct w masked w' masked) : Moves owed masked w w' :=
  .single (.session act)

theorem Moves.message (act : MessageAct w owed w' owed) : Moves owed masked w w' := .single (.message act)

theorem Quiet.moves (quiet : Quiet w w') : Moves owed masked w w' := .single (.quiet quiet)

theorem moves_quiet {m : Worker α} (quiet : Along Quiet m) (ran : m w = .ok (a, w')) :
    Moves owed masked w w' :=
  (quiet w a w' ran).moves

theorem moves_note {e : Event} (neutral : e.Neutral w.trace) : Moves owed masked w (w.log e) :=
  .single (.note neutral)

theorem moves_bind {m : Worker α} {f : α → Worker β} (first : Along (Moves owed masked) m)
    (rest : ∀ a, Along (Moves owed masked) (f a)) : Along (Moves owed masked) (m >>= f) := by
  refine Along.bind ?_ first rest
  exact Moves.trans

theorem acts_sendtoque {msg : Message} {ok : Bool} (ran : sendtoque msg w = .ok (ok, w')) :
    Acts ⟨w, owed, masked⟩ ⟨w', owed, masked⟩ := by
  obtain ⟨env, rfl⟩ := sendtoque_ok ran
  exact (Acts.one (.quiet ⟨env, w.buf, rfl⟩)).tail (.note trivial)

theorem moves_sendtoque (msg : Message) : Along (Moves owed masked) (sendtoque msg) :=
  fun _ _ _ => acts_sendtoque

theorem sendtoque_frame {msg : Message} {ok : Bool} (ran : sendtoque msg w = .ok (ok, w')) :
    w'.publishMsgStore = w.publishMsgStore ∧ w'.clientStore = w.clientStore := by
  obtain ⟨env, rfl⟩ := sendtoque_ok ran
  exact ⟨rfl, rfl⟩

theorem moves_write (sock : Fin 64) (bytes : List UInt8) :
    Along (Moves owed masked) (connWrite sock bytes none) := by
  intro w ok w' ran
  obtain ⟨env, rfl⟩ := connWrite_ok ran
  exact (Quiet.moves ⟨env, w.buf, rfl⟩).trans (moves_note trivial)

/-! ### The table calls -/

theorem storeAdd_ok {packetId : UInt16} {frame : List UInt8} {qos count : UInt8} {ok : Bool}
    (ran : storeAdd packetId frame qos count w = .ok (ok, w')) :
    ok = (w.publishMsgStore.add packetId frame qos count w.env.heap).1 ∧
      Quiet (w.stored packetId frame qos count w.env.heap) w' := by
  rw [storeAdd, get_bind_ok] at ran
  rw [log_bind_ok, modify_bind_ok] at ran
  obtain ⟨same, rfl⟩ := pure_ok.mp ran
  exact ⟨same, _, w.buf, rfl⟩

theorem countUp_ok {i : Nat} {u : Unit} : Worker.countUp i w = .ok (u, w') ↔ w' = w.countUp i := by
  rw [Worker.countUp, get_bind_ok, log_bind_ok]
  exact modify_ok

theorem countDown_ok {i : Nat} {packetId : UInt16} {u : Unit} :
    Worker.countDown i packetId w = .ok (u, w') ↔ w' = w.countDown i packetId := by
  rw [Worker.countDown, get_bind_ok, log_bind_ok, modify_bind_ok]
  unfold World.countDown
  split
  · exact modify_ok
  · exact pure_ok.trans (and_iff_right rfl)

theorem onHeap_bind_ok {call : Heap → α × Heap} {f : α → Worker β} {b : β} :
    (onHeap call >>= f) w = .ok (b, w') ↔
      f (call w.env.heap).1 { w with env := { w.env with heap := (call w.env.heap).2 } } =
        .ok (b, w') := Iff.rfl

theorem setSock_self {f : SockCid → SockCid} (same : f (w.socks sock) = w.socks sock) :
    w.setSock sock f = w := by
  rw [World.setSock, same, Function.update_eq_self]

theorem addPacketId_ok {item : PackidStateItem} {u : Unit}
    (ran : addPacketId sock item w = .ok (u, w')) : ItemAdded w sock item w' := by
  rw [addPacketId, get_bind_ok] at ran
  cases found : (w.items sock).findIdx? (·.packetId = 0) with
  | some i =>
    rw [found] at ran
    dsimp only at ran
    rw [log_bind_ok] at ran
    obtain rfl := modify_ok.mp ran
    obtain ⟨inside, free, used⟩ := List.findIdx?_eq_some_iff_getElem.mp found
    refine .reused (List.getElem?_eq_getElem inside) (of_decide_eq_true free) fun j before other at_j => ?_
    obtain ⟨_, rfl⟩ := List.getElem?_eq_some_iff.mp at_j
    simpa using used j before
  | none =>
    have used : ∀ other ∈ w.items sock, other.packetId ≠ 0 := by
      simpa using List.findIdx?_eq_none_iff.mp found
    rw [found] at ran
    dsimp only at ran
    rw [onHeap_bind_ok, log_bind_ok] at ran
    obtain rfl := setSock_ok.mp ran
    have same : (w.socks sock).packidState.size = (w.items sock).length := rfl
    unfold Myvector.pushBack
    by_cases full : (w.socks sock).packidState.size + 1 > (w.socks sock).packidState.capacity
    · cases memory : w.env.heap.alloc.1 with
      | true =>
        simp only [full, if_true]
        rw [if_neg (by simp [Myvector.size, World.items])]
        exact .pushed _ _ used
      | false =>
        simp only [full, if_true, Bool.false_eq_true, if_false]
        rw [if_pos same, setSock_self (by rfl)]
        exact .lost _
    · simp only [full, if_false]
      rw [if_neg (by simp [Myvector.size, World.items])]
      exact .pushed _ _ used

/-- Adding an item reports where it came to, or that it is lost. -/
theorem trace_added {item : PackidStateItem} (added : ItemAdded w sock item w') :
    (∃ i, w'.trace = .enqueued w.socks sock i item :: w.trace) ∨
      w'.trace = .lost item :: w.trace := by
  cases added with
  | reused => exact .inl ⟨_, rfl⟩
  | pushed => exact .inl ⟨_, rfl⟩
  | lost => exact .inr rfl

/-- What an added item leaves as it was. -/
theorem itemAdded_frame {item : PackidStateItem} (added : ItemAdded w sock item w') :
    w'.publishMsgStore = w.publishMsgStore ∧ w'.clientStore = w.clientStore ∧
      w'.retainedSubMsg = w.retainedSubMsg := by
  cases added <;> exact ⟨rfl, rfl, rfl⟩

theorem countDownIf_ok {packetId : UInt16} {found : Option Nat} {u : Unit}
    (ran : countDownIf packetId found w = .ok (u, w'))
    (got : w.publishMsgStore.get packetId = found) : w' = w.forget packetId := by
  unfold World.forget
  rw [got]
  cases found with
  | none => exact (pure_ok.mp ran).2
  | some i => exact countDown_ok.mp ran

/-! ### Publishing -/

theorem logFailure_ok {item : PackidStateItem} {written : Bool} {u : Unit}
    (ran : logFailure sock item written w = .ok (u, w')) :
    w' = if written then w else w.log (.unsent item) := by
  unfold logFailure at ran
  cases written with
  | true => exact (pure_ok.mp ran).2
  | false =>
    rw [if_neg Bool.false_ne_true, sockAt_bind_ok] at ran
    obtain ⟨_, _, -, -, ran⟩ := deref_bind_ok ran
    exact log_ok.mp ran

/-- A write of a stored message and what follows it for the item. -/
theorem publish_moves {node : NodePubmap} {qos : UInt8} {i j : Nat} {item : PackidStateItem}
    {deleteRetain : Bool} {u : Unit}
    (ran : publish node.data qos node.pubpackId sock i item deleteRetain w = .ok (u, w'))
    (at_i : (w.items sock)[i]? = some item) (counted : item.state.Counted)
    (live : Live w sock item) (sentWith : SentWith w.trace item node qos deleteRetain)
    (first : item.state = .sendpublish → item.packetId ≠ 0 ∧ ∀ k < i, ∀ other,
      (w.items sock)[k]? = some other → ¬ PackidStateItem.Pending other)
    (found : w.publishMsgStore.get item.packetId = some j) (held : w.nodeAt j = node) :
    Moves owed masked w w' := by
  have sentAs : SentAs w item qos := sentWith.sentAs
  unfold publish at ran
  cases data : node.data with
  | nil =>
    rw [data] at ran
    exact absurd ran fault_ok
  | cons head rest =>
    rw [data] at ran
    obtain ⟨written, mid, writes, ran⟩ := bind_ok.mp ran
    obtain ⟨env, rfl⟩ := connWrite_ok writes
    rw [storeGet_bind_ok] at ran
    obtain ⟨⟨⟩, mid, logged, ran⟩ := bind_ok.mp ran
    let sent := { w with env := env }.log
      (.wrote sock (w.socks sock) (publishHeader head qos deleteRetain :: rest) (some item))
    have sends : Moves owed masked w sent :=
      (Quiet.moves ⟨env, w.buf, rfl⟩).trans (.message
        (.send (w := { w with env := env }) sock qos deleteRetain at_i counted live sentAs first found
          (held ▸ data) (held ▸ sentWith)))
    have grown : ∃ events, sent.trace = events ++ w.trace := ⟨[_], rfl⟩
    have wrote : Written sent.trace sock item := ⟨w.socks sock, _, List.mem_cons_self⟩
    have sentAs : SentAs sent item qos := sentAs.grown grown
    have live : Live sent sock item := live.grown grown
    have at_i : (sent.items sock)[i]? = some item := at_i
    have found : sent.publishMsgStore.get item.packetId = some j := found
    have held : (sent.nodeAt j).pubpackId = node.pubpackId := congrArg _ held
    refine sends.trans ?_
    cases written with
    | false =>
      obtain rfl : mid = sent.log (.unsent item) := logFailure_ok logged
      rw [if_pos (by simp), modify_bind_ok] at ran
      obtain rfl := countDownIf_ok ran rfl
      rw [← held]
      exact .message (.abandon sock at_i counted live found wrote)
    | true =>
    obtain rfl : mid = sent := logFailure_ok logged
    split at ran
    · rename_i ended
      rw [modify_bind_ok] at ran
      obtain rfl := countDownIf_ok ran rfl
      obtain rfl : qos = 0 := by simpa using ended
      exact .message (.release sock node.pubpackId _ at_i counted live (.inr ⟨j, found, held.symm⟩)
        (.sent wrote sentAs))
    · rename_i kept
      rw [modify_bind_ok] at ran
      have some_qos : qos ≠ 0 := by
        rintro rfl
        simp at kept
      refine Moves.trans (.message (.await sock at_i counted wrote sentAs some_qos)) ?_
      split at ran
      · rename_i absent
        obtain ⟨ok, mid, added, ran⟩ := bind_ok.mp ran
        rw [(pure_ok.mp ran).2]
        refine Moves.trans (.message ?_) (storeAdd_ok added).2.moves
        exact .readd node.pubpackId item.packetId _ _ _ found held absent
      · rw [(pure_ok.mp ran).2]
        exact Moves.refl _

/-- Counting up changes no packet id, so it changes no lookup. -/
theorem get_countUp (w : World) (i : Nat) (packetId : UInt16) :
    (w.countUp i).publishMsgStore.get packetId = w.publishMsgStore.get packetId :=
  PublishHashmap.get_set w.publishMsgStore i { w.nodeAt i with count := (w.nodeAt i).count + 1 }
    rfl packetId

/-- The loop over some clients has come to the last of them: the counts it has
made, and those it can still make. -/
def Offering (trace : List Event) (m : Admitted) (clients : List (Node Client)) (earlier : List Event)
    (nodes : List (Node Client)) : Prop :=
  ∃ late, trace = late ++ .offering m.packetId m.topic clients :: earlier ∧
    late.countP Event.raises + hearers m.topic nodes ≤ hearers m.topic clients ∧ nodes ⊆ clients

section Offering
variable {m : Admitted} {clients nodes rest : List (Node Client)} {earlier trace : List Event}
  {node : Node Client} {granted : UInt8}

theorem Offering.skip (offering : Offering trace m clients earlier (node :: rest)) :
    Offering trace m clients earlier rest := by
  obtain ⟨late, grown, fewer, among⟩ := offering
  refine ⟨late, grown, le_trans (Nat.add_le_add_left ?_ _) fewer, (List.cons_subset.mp among).2⟩
  exact (List.sublist_cons_self node rest).countP_le

theorem Offering.log {e : Event} (offering : Offering trace m clients earlier nodes)
    (level : e.raises = false) : Offering (e :: trace) m clients earlier nodes := by
  obtain ⟨late, rfl, fewer, among⟩ := offering
  refine ⟨e :: late, rfl, ?_, among⟩
  rwa [List.countP_cons_of_neg (by simp [level])]

theorem hearers_cons (connected : node.data.sock.isSome) (subscribed : node.data.isSubscribed m.topic = .ok granted)
    (some_qos : granted ≠ emptyQos) : hearers m.topic (node :: rest) = hearers m.topic rest + 1 := by
  refine List.countP_cons_of_pos ?_
  simpa [connected, subscribed, Except.toOption] using some_qos

theorem Offering.raise {raised : NodePubmap}
    (offering : Offering trace m clients earlier (node :: rest)) (connected : node.data.sock.isSome)
    (subscribed : node.data.isSubscribed m.topic = .ok granted) (some_qos : granted ≠ emptyQos) :
    Offering (.counting raised :: trace) m clients earlier rest := by
  obtain ⟨late, rfl, fewer, among⟩ := offering
  rw [hearers_cons connected subscribed some_qos] at fewer
  refine ⟨.counting raised :: late, rfl, ?_, (List.cons_subset.mp among).2⟩
  rw [List.countP_cons_of_pos rfl]
  omega

theorem Offering.offered {stamp : Nat} (offering : Offering trace m clients earlier (node :: rest))
    (since : stamp ≤ earlier.length) (connected : node.data.sock.isSome)
    (subscribed : node.data.isSubscribed m.topic = .ok granted) (some_qos : granted ≠ emptyQos) :
    Offered trace m stamp node := by
  obtain ⟨late, grown, fewer, among⟩ := offering
  rw [hearers_cons connected subscribed some_qos] at fewer
  exact ⟨late, clients, earlier, grown, since, by omega, (List.cons_subset.mp among).1⟩

end Offering

/-- The loop over the clients, for a message whose first count is still owed. -/
theorem fanOut_moves {m : Admitted} {qos : UInt8} {i : Nat} {nodes clients : List (Node Client)} {u : Unit}
    {stamp : Nat} {earlier : List Event}
    (ran : fanOut m.topic m.frame qos m.packetId m.publisher stamp i nodes w = .ok (u, w'))
    (stamped : m.stamp = some stamp) (member : m ∈ owed) (found : w.publishMsgStore.get m.packetId = some i)
    (stored : ∀ node ∈ nodes, node ∈ w.clientStore.nodes) (since : stamp ≤ earlier.length)
    (distributed : .distributing m.publisher m.topic m.frame qos m.packetId ∈ earlier)
    (offering : Offering w.trace m clients earlier nodes) :
    Acts ⟨w, owed, masked⟩ ⟨w', owed, masked⟩ ∧
      w'.publishMsgStore.get m.packetId = some i := by
  induction nodes generalizing w with
  | nil =>
    rw [(pure_ok.mp ran).2]
    exact ⟨.refl, found⟩
  | cons node rest ih =>
    have later : ∀ node ∈ rest, node ∈ w.clientStore.nodes :=
      fun node member => stored node (List.mem_cons_of_mem _ member)
    unfold fanOut at ran
    split at ran
    · obtain ⟨granted, subscribed, ran⟩ := check_bind_ok ran
      split at ran
      · exact ih ran found later offering.skip
      · rename_i some_qos
        cases at_sock : node.data.sock with
        | none =>
          simp only [at_sock] at ran
          exact absurd ran fault_ok
        | some target =>
          simp only [at_sock] at ran
          obtain ⟨_, w₁, cleared, ran⟩ := bind_ok.mp ran
          obtain ⟨_, w₂, requested, ran⟩ := bind_ok.mp ran
          obtain ⟨store₁, clients₁⟩ := sendtoque_frame cleared
          obtain ⟨store₂, clients₂⟩ := sendtoque_frame requested
          have before : Acts ⟨w, owed, masked⟩ ⟨w₂, owed, masked⟩ :=
            (acts_sendtoque cleared).trans (acts_sendtoque requested)
          rw [← store₁, ← store₂] at found
          rw [← clients₁, ← clients₂] at stored later
          have asked : Offering w₂.trace m clients earlier (node :: rest) := by
            obtain ⟨_, rfl⟩ := sendtoque_ok cleared
            obtain ⟨_, rfl⟩ := sendtoque_ok requested
            exact (offering.log rfl).log rfl
          have connected : node.data.sock.isSome := by rw [at_sock]; rfl
          split at ran
          · rw [sockAt_bind_ok] at ran
            obtain ⟨⟨⟩, w₃, added, ran⟩ := bind_ok.mp ran
            obtain ⟨⟨⟩, w₄, counted, ran⟩ := bind_ok.mp ran
            obtain rfl := countUp_ok.mp counted
            have added := addPacketId_ok added
            have hears : Granted w₂.trace m node.key (if granted > qos then qos else granted) := by
              obtain ⟨late, grown, -, among⟩ := asked
              refine ⟨qos, granted, clients, node, ?_, ?_, (List.cons_subset.mp among).1, rfl, subscribed, some_qos,
                lesser granted qos⟩
              · simp [grown, distributed]
              · simp [grown]
            have enqueued : Act ⟨w₂, owed, masked⟩ ⟨w₃.countUp i, owed, masked⟩ :=
              .message (.enqueue m _ stamped member (stored node List.mem_cons_self) at_sock subscribed
                some_qos added found (asked.offered since connected subscribed some_qos) hears)
            have counted : Offering (w₃.countUp i).trace m clients earlier rest := by
              change Offering (.counting _ :: w₃.trace) m clients earlier rest
              rcases trace_added added with ⟨_, grown⟩ | grown <;> rw [grown]
              · exact (asked.log rfl).raise connected subscribed some_qos
              · exact (asked.log rfl).raise connected subscribed some_qos
            obtain ⟨store₃, clients₃, -⟩ := itemAdded_frame added
            rw [← store₃] at found
            rw [← clients₃] at later
            obtain ⟨after, found⟩ := ih ran ((get_countUp _ _ _).trans found) later counted
            exact ⟨(before.tail enqueued).trans after, found⟩
          · obtain ⟨_, w₃, refused, ran⟩ := bind_ok.mp ran
            obtain ⟨store₃, clients₃⟩ := sendtoque_frame refused
            rw [← store₃] at found
            rw [← clients₃] at later
            have passed : Offering w₃.trace m clients earlier rest := by
              obtain ⟨_, rfl⟩ := sendtoque_ok refused
              exact asked.skip.log rfl
            obtain ⟨after, found⟩ := ih ran found later passed
            exact ⟨(before.trans (acts_sendtoque refused)).trans after, found⟩
    · exact ih ran found later offering.skip

theorem publishByTopic_moves (topic frame : List UInt8) (qos : UInt8) (packetId : UInt16)
    (publisher : Option Publisher) {u : Unit}
    (distributes : Distributes w.trace publisher qos packetId topic frame)
    (ran : publishByTopic topic frame qos packetId publisher w = .ok (u, w')) :
    Acts ⟨w, awaiting publisher packetId topic frame, masked⟩ ⟨w', [], masked⟩ := by
  rw [publishByTopic, log_bind_ok, get_bind_ok] at ran
  obtain ⟨ok, w₁, added, ran⟩ := bind_ok.mp ran
  obtain ⟨-, quiet⟩ := storeAdd_ok added
  rw [storeGet_bind_ok] at ran
  cases found : w₁.publishMsgStore.get packetId with
  | none =>
    rw [found] at ran
    obtain rfl := (pure_ok.mp ran).2
    rw [quiet.store] at found
    exact (Acts.one (.message (.refuse packetId topic frame qos _ distributes found))).tail (.quiet quiet)
  | some i =>
    rw [found] at ran
    obtain ⟨⟨⟩, w₂, fanned, ran⟩ := bind_ok.mp (log_bind_ok.mp (get_bind_ok.mp ran))
    obtain rfl := countDown_ok.mp ran
    let m : Admitted := ⟨packetId, frame, topic, publisher, some (w.trace.length + 1)⟩
    have entered : Act ⟨w, awaiting publisher packetId topic frame, masked⟩
        ⟨(w.log (.distributing publisher topic frame qos packetId)).stored packetId frame qos 1 w.env.heap,
          [m], masked⟩ := by
      refine .message (.enter m qos _ distributes rfl ?_)
      rw [quiet.store] at found
      exact Option.isSome_iff_exists.mpr ⟨i, found⟩
    have since : w.trace.length + 1 ≤ w₁.trace.length := by
      obtain ⟨_, _, rfl⟩ := quiet
      exact Nat.le_succ _
    have distributed : .distributing publisher topic frame qos packetId ∈ w₁.trace := by
      obtain ⟨_, _, rfl⟩ := quiet
      exact List.mem_cons_of_mem _ List.mem_cons_self
    have fans : Acts ⟨w₁.log (.offering packetId topic w₁.clientStore.nodes), [m], masked⟩
        ⟨w₂, [m], masked⟩ ∧ w₂.publishMsgStore.get packetId = some i :=
      fanOut_moves (m := m) fanned rfl List.mem_cons_self found (fun _ member => member) since distributed
        ⟨[], rfl, by rw [List.countP_nil, Nat.zero_add], List.Subset.refl _⟩
    have offered : Act ⟨w₁, [m], masked⟩
        ⟨w₁.log (.offering packetId topic w₁.clientStore.nodes), [m], masked⟩ := .note trivial
    exact ((((Acts.one entered).tail (.quiet quiet)).tail offered).trans fans.1).tail
      (.message (.retire m rfl fans.2))

/-! ### The end of a connection -/

theorem publishWill_moves (sock : Fin 64) (sendwill : Bool) {u : Unit}
    (called : .dropping sock (w.socks sock) sendwill ∈ w.trace)
    (ran : publishWill (w.socks sock) sendwill w = .ok (u, w')) : Moves [] none w w' := by
  unfold publishWill at ran
  cases attached : (w.socks sock).client with
  | none =>
    rw [attached] at ran
    rw [(pure_ok.mp ran).2]
    exact Moves.refl w
  | some addr =>
    rw [attached] at ran
    obtain ⟨_, client, same, held, ran⟩ := deref_bind_ok ran
    cases same
    split at ran
    · rename_i wills
      rw [Bool.and_eq_true] at wills
      obtain ⟨⟨⟩, w₁, hid, ran⟩ := bind_ok.mp ran
      obtain ⟨_, same, rfl⟩ := setClient_ok hid
      cases same
      obtain ⟨packetId, w₂, drawn, ran⟩ := bind_ok.mp ran
      rw [log_bind_ok] at ran
      obtain ⟨⟨⟩, w₃, published, ran⟩ := bind_ok.mp ran
      obtain ⟨_, same, rfl⟩ := setClient_ok ran
      cases same
      refine Relation.ReflTransGen.head (.session (.hide sock attached held)) ?_
      have still : .dropping sock (w.socks sock) true ∈ w₂.trace := by
        obtain ⟨_, _, rfl⟩ := quiet_random _ _ _ drawn
        rwa [wills.2] at called
      have noted : Moves [] (some (addr, client.sock)) w₂ (w₂.log (.willed (w.socks sock).tls
          client.will.topic.elems client.will.msg.elems client.will.qos client.will.msg.elems)) :=
        moves_note ⟨rfl, sock, _, still, by rw [attached]; rfl, rfl⟩
      have distributes : Distributes (w₂.log (.willed (w.socks sock).tls client.will.topic.elems
          client.will.msg.elems client.will.qos client.will.msg.elems)).trace none client.will.qos packetId
          client.will.topic.elems client.will.msg.elems :=
        ⟨fun sender wrong => (by cases wrong), fun wrong => (by cases wrong), fun _ => ⟨_, _, List.mem_cons_self⟩⟩
      have inside : Moves [] (some (addr, client.sock)) _ w₃ :=
        (moves_quiet quiet_random drawn).trans (noted.trans
          (publishByTopic_moves _ _ _ _ _ distributes published))
      exact inside.tail (.session (.unhide addr client.sock))
    · rw [(pure_ok.mp ran).2]
      exact Moves.refl w

theorem endSession_moves (sock : Fin 64) : Along (Moves [] none) (endSession sock) := by
  intro w u w' ran
  rw [endSession, sockAt_bind_ok] at ran
  obtain ⟨⟨⟩, mid, released, ran⟩ := bind_ok.mp ran
  obtain rfl := setSock_ok.mp ran
  unfold releaseClient at released
  cases attached : (w.socks sock).client with
  | none =>
    rw [attached] at released
    rw [(pure_ok.mp released).2]
    exact .session (.vanish sock attached)
  | some addr =>
    rw [attached] at released
    obtain ⟨_, client, same, held, released⟩ := deref_bind_ok released
    cases same
    rw [log_bind_ok] at released
    split at released
    · rename_i clean
      rw [get_bind_ok] at released
      obtain ⟨store, erased, released⟩ := check_bind_ok released
      obtain rfl := set_ok.mp released
      exact .session (.erase sock attached held clean erased)
    · rename_i unclean
      obtain ⟨_, same, rfl⟩ := setClient_ok released
      cases same
      exact .session (.detach sock attached held unclean)

theorem dropConn_moves (sock : Fin 64) (sendwill : Bool) :
    Along (Moves [] none) (dropConn sock sendwill) := by
  intro w u w' ran
  rw [dropConn, sockAt_bind_ok, log_bind_ok] at ran
  obtain ⟨_, w₁, asked, ran⟩ := bind_ok.mp ran
  rw [log_bind_ok, sockAt_bind_ok] at ran
  obtain ⟨⟨⟩, w₂, willed, ran⟩ := bind_ok.mp ran
  have called : Moves [] none w (w.log (.dropping sock (w.socks sock) sendwill)) := moves_note trivial
  have closed : Moves [] none w₁ (w₁.log (.closed sock)) := moves_note trivial
  have drops : Moves [] none (w₁.log (.closed sock)) w₂ := by
    obtain ⟨env, rfl⟩ := sendtoque_ok asked
    exact publishWill_moves sock sendwill
      (List.mem_cons_of_mem _ (List.mem_cons_of_mem _ List.mem_cons_self)) willed
  exact (((called.trans (moves_sendtoque _ _ _ _ asked)).trans closed).trans drops).trans
    (endSession_moves sock _ _ _ ran)

/-! ### CONNECT -/

theorem connAck_moves (sock : Fin 64) (returnCode : UInt8) (flag : Bool) :
    Along (Moves owed masked) (connAck sock returnCode flag) := by
  refine moves_bind (moves_write sock _) fun _ => ?_
  intro w a w' ran
  rw [(pure_ok.mp ran).2]
  exact Moves.refl w

/-- A run of `connect_mqtt` from a socket without a client id: it refuses, or
it enters a client id and only reads on. -/
def Enters (sock : Fin 64) (m : Worker (MqttConnReturn × Will)) : Prop :=
  ∀ w ret w', (w.socks sock).clientid = [] → m w = .ok (ret, w') →
    ret.1 = .disconnect ∧ Moves [] none w w' ∨
      ∃ clientid w₁, clientid ≠ [] ∧ Quiet w w₁ ∧
        w' = w₁.setSock sock ({ · with clientid := clientid })

theorem enters_quiet {m : Worker α} {f : α → Worker (MqttConnReturn × Will)}
    (first : Along Quiet m) (rest : ∀ a, Enters sock (f a)) : Enters sock (m >>= f) := by
  intro w ret w' unnamed ran
  obtain ⟨a, mid, read, ran⟩ := bind_ok.mp ran
  have quiet := first _ _ _ read
  have still : (mid.socks sock).clientid = [] := by
    obtain ⟨_, _, rfl⟩ := quiet
    exact unnamed
  rcases rest a _ _ _ still ran with ⟨refused, moves⟩ | ⟨clientid, w₁, named, quiet₁, rfl⟩
  · exact .inl ⟨refused, quiet.moves.trans moves⟩
  · exact .inr ⟨clientid, w₁, named, quiet.trans quiet₁, rfl⟩

theorem enters_refused {m : Worker (MqttConnReturn × Will)} (moves : Along (Moves [] none) m)
    (refuses : ∀ w ret w', m w = .ok (ret, w') → ret.1 = .disconnect) : Enters sock m :=
  fun w ret w' _ ran => .inl ⟨refuses w ret w' ran, moves w ret w' ran⟩

theorem enters_disconnect : Enters sock (pure (.disconnect, {})) :=
  enters_refused (Along.pure Moves.refl _) fun _ _ _ ran => (pure_ok.mp ran).1 ▸ rfl

theorem connectMqtt_enters (sock : Fin 64) (curPos : Nat) : Enters sock (connectMqtt sock curPos) := by
  refine enters_quiet (quiet_byteAt _) fun _ => ?_
  dsimp only
  split
  · exact enters_disconnect
  refine enters_quiet (quiet_ntohsAt _) fun _ => ?_
  split
  · exact enters_disconnect
  refine enters_quiet (quiet_matchesAt _ _) fun _ => ?_
  split
  · exact enters_disconnect
  refine enters_quiet (quiet_byteAt _) fun _ => ?_
  split
  · refine enters_refused (moves_bind (connAck_moves sock _ _) fun _ =>
      Along.pure Moves.refl _) fun w ret w' ran => ?_
    obtain ⟨_, _, -, ran⟩ := bind_ok.mp ran
    exact (pure_ok.mp ran).1 ▸ rfl
  refine enters_quiet (quiet_byteAt _) fun _ => ?_
  split
  · exact enters_disconnect
  split
  · exact enters_disconnect
  refine enters_quiet (quiet_ntohsAt _) fun _ => ?_
  refine enters_quiet (quiet_ntohsAt _) fun clientidLen => ?_
  split
  · exact enters_disconnect
  rename_i fits
  intro w ret w' _ ran
  obtain ⟨clientid, w₁, read, ran⟩ := bind_ok.mp ran
  rw [setSock_bind_ok] at ran
  have length := rangeAt_length read
  obtain ⟨env, buf, rfl⟩ := quiet_readOptions _ _ _ _ _ _ ran
  obtain ⟨env₁, buf₁, rfl⟩ := quiet_rangeAt _ _ _ _ _ read
  refine .inr ⟨clientid, { w with env := env, buf := buf }, ?_, ⟨env, buf, rfl⟩, rfl⟩
  rintro rfl
  exact fits (.inl (UInt16.lt_iff_toNat_lt.mpr (by simp only [List.length_nil] at length; simp [← length])))

theorem requestAfterConnack_moves (client : Option Nat) (hasQuedMsgs : Bool) :
    Along (Moves [] none) (requestAfterConnack sock client hasQuedMsgs) := by
  intro w u w' ran
  unfold requestAfterConnack at ran
  split at ran
  · obtain ⟨⟨⟩, w₁, touched, ran⟩ := bind_ok.mp ran
    obtain ⟨addr, -, rfl⟩ := setClient_ok touched
    obtain ⟨_, w₂, asked, ran⟩ := bind_ok.mp ran
    rw [(pure_ok.mp ran).2]
    exact (Moves.session (.touch addr)).trans (moves_sendtoque _ _ _ _ asked)
  · obtain ⟨_, w₂, asked, ran⟩ := bind_ok.mp ran
    rw [(pure_ok.mp ran).2]
    exact moves_sendtoque _ _ _ _ asked

/-- The end of an accepted CONNECT: the client's flag and will are set and the
CONNACK is sent, before the next request. -/
theorem acceptConnect_ok {clean : Bool} {will : Will} {prev : Option Client} {u : Unit}
    (ran : acceptConnect sock clean will prev w = .ok (u, w')) :
    ∃ addr client assigned env, (w.socks sock).client = some addr ∧ w.clientAt addr = some client ∧
      Moves [] none ((({ w with env := env }.log (.wrote sock (w.socks sock) connackSent none)).setClient
        addr ({ · with cleanSession := clean, will := assigned })).log
        (.acknowledged (w.socks sock).tls (w.socks sock).clientid clean will prev connackSent
          client.subscriptions)) w' := by
  rw [acceptConnect, sockAt_bind_ok] at ran
  obtain ⟨addr, client, attached, held, ran⟩ := deref_bind_ok ran
  rw [onHeap_bind_ok] at ran
  obtain ⟨⟨⟩, w₁, set, ran⟩ := bind_ok.mp ran
  obtain ⟨_, same, rfl⟩ := setClient_ok set
  rw [attached] at same
  cases same
  obtain ⟨connack, w₂, acked, ran⟩ := bind_ok.mp ran
  obtain ⟨ok, w₃, wrote, acked⟩ := bind_ok.mp acked
  obtain ⟨env, rfl⟩ := connWrite_ok wrote
  obtain ⟨rfl, rfl⟩ := pure_ok.mp acked
  rw [log_bind_ok] at ran
  exact ⟨addr, client, _, env, attached, held, requestAfterConnack_moves _ _ _ _ _ ran⟩

theorem newClient_ok {clientid : Key} {ok : Bool}
    (ran : newClient sock clientid w = .ok (ok, w')) :
    if ok then ∃ env heap before after store client,
      w.clientStore.add clientid (Client.new w.nextAddr heap).1 before = .ok (true, store, after) ∧
        store.get clientid = .ok (some client) ∧
        w' = ({ w with env := env, clientStore := store, nextAddr := w.nextAddr + 1 }.setSock sock
          ({ · with client := some client.addr })).setClient client.addr ({ · with sock := some sock })
    else Moves [] none w w' := by
  rw [newClient, onHeap_bind_ok] at ran
  split at ran
  · rw [get_bind_ok, onHeap_bind_ok, get_bind_ok] at ran
    obtain ⟨⟨added, store, after⟩, stored, ran⟩ := check_bind_ok ran
    rw [set_bind_ok] at ran
    dsimp only at ran
    split at ran
    · rename_i success
      obtain ⟨client, found, ran⟩ := check_bind_ok ran
      rw [setSock_bind_ok] at ran
      obtain ⟨⟨⟩, mid, set, ran⟩ := bind_ok.mp ran
      obtain ⟨addr, same, rfl⟩ := setClient_ok set
      obtain ⟨rfl, rfl⟩ := pure_ok.mp ran
      cases client with
      | none => cases same
      | some client =>
        cases same
        subst success
        exact ⟨_, _, _, _, store, client, stored, found, rfl⟩
    · rename_i refused
      obtain rfl : added = false := by simpa using refused
      obtain rfl := Myhashmap.add_refused stored
      obtain ⟨rfl, rfl⟩ := pure_ok.mp ran
      have burnt : Moves [] none w { w with nextAddr := w.nextAddr + 1 } := .session .burn
      exact burnt.trans (Quiet.moves ⟨_, w.buf, rfl⟩)
  · obtain ⟨rfl, rfl⟩ := pure_ok.mp ran
    exact Quiet.moves ⟨_, w.buf, rfl⟩

/-- A new client connects. -/
theorem connectNew_moves {clean : Bool} {will : Will} {u : Unit}
    (named : (w.socks sock).clientid ≠ [])
    (absent : w.clientStore.get (w.socks sock).clientid = .ok none)
    (ran : (newClient sock (w.socks sock).clientid >>= fun added =>
      if added then acceptConnect sock clean will none else dropConn sock true) w = .ok (u, w')) :
    Moves [] none w w' := by
  obtain ⟨added, mid, made, ran⟩ := bind_ok.mp ran
  have made := newClient_ok made
  cases added with
  | false => exact made.trans (dropConn_moves sock true _ _ _ ran)
  | true =>
    obtain ⟨env, heap, before, after, store, client, stored, found, rfl⟩ := made
    obtain ⟨addr, held, assigned, env', attached, at_addr, moves⟩ := acceptConnect_ok ran
    refine Moves.trans ?_ moves
    have same : addr = client.addr := by
      simpa [World.setClient, World.setSock, eq_comm] using attached
    subst same
    rw [World.clientAt_setClient] at at_addr
    · obtain ⟨fresh, at_fresh, rfl⟩ := Option.map_eq_some_iff.mp at_addr
      generalize wrote : Event.wrote sock _ connackSent none = e
      have before : Moves [] none w ({ w with env := env' }.log e) :=
        (Quiet.moves ⟨env', w.buf, rfl⟩).trans (moves_note (wrote ▸ trivial))
      have accepted : Act ⟨{ w with env := env' }.log e, [], none⟩ _ :=
        .session (.acceptNew sock clean will assigned named absent stored found at_fresh)
      rw [World.setClient_socks, World.setSock_socks]
      exact before.tail accepted
    · exact fun _ => rfl

/-- A takeover leaves the client as it was, but for subscriptions that a clean
session loses. -/
theorem takeOver_ok {client : Client} {clean : Bool} {u : Unit}
    (connecting : .connecting sock (w.socks sock).clientid clean (some client) ∈ w.trace)
    (stored : w.clientStore.get (w.socks sock).clientid = .ok (some client))
    (attached : (w.socks sock).client = some client.addr)
    (ran : takeOver sock client w = .ok (u, w')) :
    ∃ w₁ env, Moves [] none w w₁ ∧ w₁.clientStore = w.clientStore ∧ w₁.socks sock = w.socks sock ∧
      .connecting sock (w.socks sock).clientid clean (some client) ∈ w₁.trace ∧
      (w' = w₁ ∧ client.sock = none ∨
        ∃ held, w.clientAt client.addr = some held ∧ client.sock.isSome ∧
          (¬ held.cleanSession ∧ w' = w₁ ∨
            held.cleanSession ∧ ∃ heap, w' = { w₁ with env := env }.setClient client.addr
              ({ · with subscriptions := (Subscription.new heap).1 }))) := by
  unfold takeOver at ran
  cases recorded : client.sock with
  | none =>
    rw [recorded] at ran
    rw [(pure_ok.mp ran).2]
    exact ⟨w, w.env, Moves.refl w, rfl, rfl, connecting, .inl ⟨rfl, rfl⟩⟩
  | some prevSock =>
    rw [recorded] at ran
    obtain ⟨_, w₁, asked, ran⟩ := bind_ok.mp ran
    have queued : Moves [] none w w₁ := moves_sendtoque _ _ _ _ asked
    obtain ⟨env, rfl⟩ := sendtoque_ok asked
    rw [sockAt_bind_ok, sockAt_bind_ok, log_bind_ok, setSock_bind_ok, sockAt_bind_ok] at ran
    obtain ⟨addr, held, still, at_addr, ran⟩ := deref_bind_ok ran
    have other : sock ≠ prevSock := by
      rintro rfl
      rw [World.setSock_socks] at still
      cases still
    rw [World.setSock_other _ _ other] at still
    obtain rfl : addr = client.addr := Option.some.inj (still.symm.trans attached)
    rw [World.setSock_other _ _ other] at ran
    rw [log_bind_ok] at ran
    generalize asked_event : Event.queued _ _ = e at ran queued
    have evicted : Moves [] none w _ := (queued.trans (.session
      (.evict sock prevSock (List.mem_cons_of_mem _ connecting) stored recorded))).trans
        (moves_note (e := .closed prevSock) trivial)
    split at ran
    · rename_i clean_held
      rw [onHeap_bind_ok] at ran
      obtain ⟨_, same, rfl⟩ := setClient_ok ran
      obtain rfl := Option.some.inj (same.symm.trans attached)
      exact ⟨_, _, evicted, rfl, World.reset_other other,
        List.mem_cons_of_mem _ (List.mem_cons_of_mem _ (List.mem_cons_of_mem _ connecting)),
        .inr ⟨held, at_addr, rfl, .inr ⟨clean_held, _, rfl⟩⟩⟩
    · rename_i unclean
      rw [(pure_ok.mp ran).2]
      exact ⟨_, w.env, evicted, rfl, World.reset_other other,
        List.mem_cons_of_mem _ (List.mem_cons_of_mem _ (List.mem_cons_of_mem _ connecting)),
        .inr ⟨held, at_addr, rfl, .inl ⟨unclean, rfl⟩⟩⟩

/-- A client that is stored connects. -/
theorem connectStored_moves {client : Client} {clean : Bool} {will : Will} {u : Unit}
    (connecting : .connecting sock (w.socks sock).clientid clean (some client) ∈ w.trace)
    (stored : w.clientStore.get (w.socks sock).clientid = .ok (some client))
    (attached : (w.socks sock).client = some client.addr)
    (ran : (takeOver sock client >>= fun _ => acceptConnect sock clean will (some client)) w =
      .ok (u, w')) : Moves [] none w w' := by
  obtain ⟨⟨⟩, mid, took, ran⟩ := bind_ok.mp ran
  obtain ⟨w₁, env, before, store, socks, connecting, outcome⟩ := takeOver_ok connecting stored attached took
  obtain ⟨addr, found, assigned, env', attached', at_addr, after⟩ := acceptConnect_ok ran
  rw [← store, ← socks] at stored
  rw [← socks] at attached connecting
  have accepted (cleared : Option Subscription) {held : Client}
      (at_held : w₁.clientAt client.addr = some held)
      (kept : if client.sock.isSome ∧ held.cleanSession then
        ∃ heap, cleared = some (Subscription.new heap).1 else cleared = none) :
      Moves [] none w ((({ w₁ with env := env' }.log (.wrote sock (w₁.socks sock) connackSent none)).setClient
        client.addr fun client => { client with
          subscriptions := cleared.getD client.subscriptions
          cleanSession := clean
          will := assigned }).log
        (.acknowledged (w₁.socks sock).tls (w₁.socks sock).clientid clean will (some client)
          connackSent (cleared.getD held.subscriptions))) := by
    refine (before.trans ((Quiet.moves ⟨env', w₁.buf, rfl⟩).trans
      (moves_note (e := .wrote sock (w₁.socks sock) connackSent none) trivial))).trans (.session ?_)
    exact .acceptStored (w := { w₁ with env := env' }.log _) sock clean will assigned
      (List.mem_cons_of_mem _ connecting) stored attached at_held kept
  rcases outcome with ⟨rfl, offline⟩ | ⟨held, at_held, online, ⟨unclean, rfl⟩ | ⟨cleared, heap, rfl⟩⟩
  · obtain rfl : addr = client.addr := Option.some.inj (attached'.symm.trans attached)
    refine (accepted none at_addr ?_).trans after
    rw [if_neg fun both => by simp [offline] at both]
  · obtain rfl : addr = client.addr := Option.some.inj (attached'.symm.trans attached)
    refine (accepted none at_addr ?_).trans after
    have same : w.clientAt client.addr = mid.clientAt client.addr := by
      rw [clientAt, clientAt, clients, clients, store]
    obtain rfl : held = found := Option.some.inj (at_held.symm.trans (same.trans at_addr))
    rw [if_neg fun both => unclean both.2]
  · obtain rfl : addr = client.addr := Option.some.inj (attached'.symm.trans attached)
    have keeps : ∀ client : Client,
        { client with subscriptions := (Subscription.new heap).1 }.addr = client.addr := fun _ => rfl
    have at_addr := (clientAt_setClient keeps).symm.trans at_addr
    obtain ⟨before_clear, at_before, rfl⟩ := Option.map_eq_some_iff.mp at_addr
    have same : w.clientAt client.addr = w₁.clientAt client.addr := by
      rw [clientAt, clientAt, clients, clients, store]
    obtain rfl : held = before_clear := Option.some.inj (at_held.symm.trans (same.trans at_before))
    refine (accepted (some (Subscription.new heap).1) at_before ?_).trans ?_
    · rw [if_pos ⟨online, cleared⟩]
      exact ⟨heap, rfl⟩
    · let answered := { w₁ with env := env' }.log (.wrote sock (w₁.socks sock) connackSent none)
      have joined : (answered.setClient client.addr _).setClient client.addr
          (fun client => { client with cleanSession := clean, will := assigned }) =
            answered.setClient client.addr _ := setClient_setClient keeps
      exact joined ▸ after

theorem connectEvent_moves {curPos : Nat} {u : Unit} (unnamed : (w.socks sock).clientid = [])
    (ran : connectEvent sock curPos w = .ok (u, w')) : Moves [] none w w' := by
  obtain ⟨ret, w₁, read, ran⟩ := bind_ok.mp ran
  rcases connectMqtt_enters sock curPos w ret w₁ unnamed read with
    ⟨refused, moves⟩ | ⟨clientid, w₁, named, quiet, rfl⟩
  · rw [if_pos refused] at ran
    exact moves.trans (dropConn_moves sock true _ _ _ ran)
  refine quiet.moves.trans ?_
  have unnamed : (w₁.socks sock).clientid = [] := by
    obtain ⟨_, _, rfl⟩ := quiet
    exact unnamed
  split at ran
  · exact (Moves.session (.name sock clientid unnamed)).trans (dropConn_moves sock true _ _ _ ran)
  · dsimp only at ran
    rw [sockAt_bind_ok, get_bind_ok, setSock_socks] at ran
    obtain ⟨prev, stored, ran⟩ := check_bind_ok ran
    rw [log_bind_ok, setSock_bind_ok] at ran
    generalize decide (ret.1 = .cleanSession) = clean at ran
    have joined : ((w₁.log (.connecting sock clientid clean prev)).setSock sock
        ({ · with clientid := clientid })).setSock sock ({ · with client := prev.map Client.addr }) =
          (w₁.log (.connecting sock clientid clean prev)).setSock sock
            ({ · with client := prev.map Client.addr, clientid := clientid }) := setSock_setSock _
    have entered : Moves [] none w₁ _ := .session (.connecting sock clientid clean unnamed named stored)
    rw [← joined] at entered
    refine entered.trans ?_
    generalize whole : ((w₁.log (.connecting sock clientid clean prev)).setSock sock
      ({ · with clientid := clientid })).setSock sock ({ · with client := prev.map Client.addr }) = w₂
    have ran := whole ▸ ran
    have at_sock : w₂.socks sock =
        { w₁.socks sock with clientid := clientid, client := prev.map Client.addr } := by
      rw [← whole, setSock_socks, setSock_socks]
      rfl
    have named_sock : (w₂.socks sock).clientid = clientid := by rw [at_sock]
    have attached : (w₂.socks sock).client = prev.map Client.addr := by rw [at_sock]
    have stored : w₂.clientStore.get (w₂.socks sock).clientid = .ok prev := by
      rw [named_sock, ← whole]
      exact stored
    have noted : .connecting sock (w₂.socks sock).clientid clean prev ∈ w₂.trace := by
      rw [named_sock, ← whole]
      exact List.mem_cons_self
    rw [← named_sock] at ran named
    cases prev with
    | none => exact connectNew_moves named stored ran
    | some client => exact connectStored_moves noted stored attached ran

/-! ### PUBLISH -/

theorem forget_quiet (quiet : Quiet w w') (packetId : UInt16) :
    Quiet (w.forget packetId) (w'.forget packetId) := by
  obtain ⟨env, buf, rfl⟩ := quiet
  refine ⟨env, buf, ?_⟩
  unfold World.forget
  cases w.publishMsgStore.get packetId <;> rfl

theorem forget_retained (w : World) (packetId : UInt16) :
    (w.forget packetId).retainedSubMsg = w.retainedSubMsg := by
  unfold World.forget
  split <;> rfl

theorem retainMessage_moves (topic frame : List UInt8) (qos : UInt8) (packetid : UInt16)
    (unstamped : ∀ m ∈ owed, m.stamp = none) {u : Unit} (source : Source w.trace packetid frame qos)
    (ran : retainMessage topic frame qos packetid w = .ok (u, w')) : Moves owed masked w w' := by
  rw [retainMessage, log_bind_ok] at ran
  generalize logged : w.log (.retain topic frame qos packetid) = w₀ at ran
  obtain ⟨ok, w₁, added, ran⟩ := bind_ok.mp ran
  obtain ⟨same, quiet⟩ := storeAdd_ok added
  subst logged
  cases ok with
  | false =>
    rw [(pure_ok.mp ran).2]
    exact Moves.trans (.message (.retainRefused packetid topic frame qos _ same.symm unstamped source)) quiet.moves
  | true =>
    obtain ⟨env, buf, rfl⟩ := quiet
    rw [if_pos rfl, log_bind_ok, get_bind_ok] at ran
    obtain ⟨kept, looked, ran⟩ := check_bind_ok ran
    cases kept with
    | none =>
      obtain ⟨⟨ok, retained, heap⟩, appended, ran⟩ := check_bind_ok ran
      rw [log_bind_ok, get_bind_ok] at ran
      obtain rfl := set_ok.mp ran
      exact Moves.trans (.message (.retainNew packetid frame qos _ same.symm looked appended unstamped source))
        (Quiet.moves ⟨_, buf, rfl⟩)
    | some old =>
      dsimp only at ran
      rw [storeGet_bind_ok] at ran
      obtain ⟨⟨⟩, w₂, forgot, ran⟩ := bind_ok.mp ran
      obtain rfl := countDownIf_ok forgot rfl
      obtain rfl := modify_ok.mp ran
      refine Moves.trans (.message (.retainReplace packetid frame qos _ same.symm looked unstamped source)) ?_
      rw [forget_retained]
      obtain ⟨env', buf', forgot⟩ := forget_quiet (w := ((w.log (.retain topic frame qos packetid)).stored
        packetid frame qos 2 w.env.heap).log (.retaining packetid)) ⟨env, buf, rfl⟩ old
      exact Quiet.moves ⟨env', buf', congrArg (fun w' : World =>
        { w' with retainedSubMsg := w.retainedSubMsg.rewritten topic packetid }) forgot⟩

/-- A run that logs events of one kind and leaves the sockets alone, but for
what these events say. -/
def Logs (P : Event → Prop) (w w' : World) : Prop :=
  ∃ events, w'.trace = events ++ w.trace ∧ ∀ e ∈ events, P e

theorem Logs.trans {P : Event → Prop} {w₁ w₂ w₃ : World} (first : Logs P w₁ w₂) (second : Logs P w₂ w₃) :
    Logs P w₁ w₃ := by
  obtain ⟨early, grown, holds⟩ := first
  obtain ⟨late, grown', holds'⟩ := second
  refine ⟨late ++ early, by rw [grown', grown, List.append_assoc], ?_⟩
  exact List.forall_mem_append.mpr ⟨holds', holds⟩

theorem Logs.one {P : Event → Prop} {e : Event} (grown : w'.trace = e :: w.trace) (holds : P e) :
    Logs P w w' :=
  ⟨[e], grown, List.forall_mem_singleton.mpr holds⟩

theorem Logs.inHand {P : Event → Prop} {sockst : SockCid} {qos : UInt8} {packetId : UInt16}
    {topic frame : List UInt8} (logs : Logs P w w')
    (hand : InHand P w.trace sock sockst qos packetId topic frame) :
    InHand P w'.trace sock sockst qos packetId topic frame := by
  obtain ⟨events, grown, holds⟩ := logs
  obtain ⟨late, earlier, split, holds'⟩ := hand
  exact ⟨events ++ late, earlier, by rw [grown, split, List.append_assoc],
    List.forall_mem_append.mpr ⟨holds, holds'⟩⟩

/-- Keeping a message logs what it does and touches no socket. -/
theorem retainMessage_logs {topic frame : List UInt8} {qos : UInt8} {packetid : UInt16} {u : Unit}
    (ran : retainMessage topic frame qos packetid w = .ok (u, w')) :
    Logs Event.OfRetained w w' ∧ w'.socks = w.socks := by
  rw [retainMessage, log_bind_ok] at ran
  obtain ⟨ok, w₁, added, ran⟩ := bind_ok.mp ran
  obtain ⟨-, env, buf, rfl⟩ := storeAdd_ok added
  have noted : Logs Event.OfRetained w (w.log (.retain topic frame qos packetid)) := .one rfl trivial
  have first : Logs Event.OfRetained w ((w.log (.retain topic frame qos packetid)).stored packetid
      frame qos 2 w.env.heap) := noted.trans (.one rfl trivial)
  split at ran
  · rw [log_bind_ok, get_bind_ok] at ran
    obtain ⟨kept, looked, ran⟩ := check_bind_ok ran
    cases kept with
    | none =>
      obtain ⟨added, appended, ran⟩ := check_bind_ok ran
      rw [log_bind_ok, get_bind_ok] at ran
      obtain rfl := set_ok.mp ran
      have kept : Logs Event.OfRetained w (((w.log (.retain topic frame qos packetid)).stored packetid
          frame qos 2 w.env.heap).log (.retaining packetid)) := first.trans (.one rfl trivial)
      exact ⟨kept.trans (.one rfl trivial), rfl⟩
    | some old =>
      dsimp only at ran
      rw [storeGet_bind_ok] at ran
      obtain ⟨⟨⟩, w₂, forgot, ran⟩ := bind_ok.mp ran
      obtain rfl := countDownIf_ok forgot rfl
      obtain rfl := modify_ok.mp ran
      have forgets (u : World) : Logs Event.OfRetained u (u.forget old) ∧ (u.forget old).socks = u.socks := by
        unfold World.forget
        split
        · exact ⟨.one rfl trivial, rfl⟩
        · exact ⟨⟨[], rfl, List.forall_mem_nil _⟩, rfl⟩
      have kept : Logs Event.OfRetained w (((w.log (.retain topic frame qos packetid)).stored packetid
          frame qos 2 w.env.heap).log (.retaining packetid)) := first.trans (.one rfl trivial)
      exact ⟨kept.trans (forgets _).1, (forgets _).2⟩
  · obtain rfl := (pure_ok.mp ran).2
    exact ⟨first, rfl⟩

theorem queueAck_moves {state : PacketState} {qos : UInt8}
    (fits : state = .sendpuback ∧ qos = 1 ∨ state = .sendpubrec ∧ qos = 2) {packetid : UInt16}
    {frame topic : List UInt8} {u : Unit}
    (hand : InHand Event.OfRetained w.trace sock (w.socks sock) qos packetid topic frame)
    (ran : queueAck sock state packetid qos frame topic w = .ok (u, w')) :
    Moves owed masked w w' ∧ Logs Event.OfReply w w' ∧
      (qos = 2 → ∃ e earlier, w'.trace = e :: earlier ∧ e.Replied packetid) := by
  obtain ⟨ok, w₁, asked, ran⟩ := bind_ok.mp ran
  have moves : Moves owed masked w w₁ := moves_sendtoque _ _ _ _ asked
  obtain ⟨env, rfl⟩ := sendtoque_ok asked
  have asked : Logs Event.OfReply w ({ w with env := env }.log (.queued ⟨sock, .write⟩ ok)) :=
    .one rfl trivial
  have hand : InHand Event.OfRetained ({ w with env := env }.log (.queued ⟨sock, .write⟩ ok)).trace sock
      (w.socks sock) qos packetid topic frame := Logs.inHand (w := w) (.one rfl trivial) hand
  split at ran
  · rw [sockAt_bind_ok] at ran
    have added := addPacketId_ok ran
    have first (two : qos = 2) : state = .sendpubrec := by
      subst two
      rcases fits with ⟨-, wrong⟩ | ⟨state, -⟩
      · exact absurd wrong (by decide)
      · exact state
    refine ⟨moves.trans (.message ?_), asked.trans ?_, fun two => ?_⟩
    · refine .incoming sock ?_ ?_ ?_ added
      · exact fits
      · rfl
      · exact hand
    · rcases trace_added added with ⟨i, grown⟩ | grown
      · exact .one grown trivial
      · exact .one grown trivial
    · rcases trace_added added with ⟨i, grown⟩ | grown
      · exact ⟨_, _, grown, first two, rfl⟩
      · exact ⟨_, _, grown, first two, rfl⟩
  · rw [(pure_ok.mp ran).2]
    exact ⟨moves, asked, fun _ => ⟨_, _, rfl, eq_false_of_ne_true ‹_›⟩⟩

/-- The reply to a PUBLISH that is in hand, which then is still in hand. -/
theorem replyToPublisher_moves {qos : UInt8} {packetid : UInt16} {frame topic : List UInt8} {u : Unit}
    (hand : InHand Event.OfRetained w.trace sock (w.socks sock) qos packetid topic frame)
    (ran : replyToPublisher sock qos packetid frame topic w = .ok (u, w')) :
    Moves owed masked w w' ∧ Logs Event.OfReply w w' ∧
      (qos = 2 → ∃ e earlier, w'.trace = e :: earlier ∧ e.Replied packetid) := by
  unfold replyToPublisher at ran
  split at ran
  · exact queueAck_moves (.inl ⟨rfl, ‹_›⟩) hand ran
  · split at ran
    · exact queueAck_moves (.inr ⟨rfl, ‹_›⟩) hand ran
    · obtain ⟨ok, w₁, asked, ran⟩ := bind_ok.mp ran
      rw [(pure_ok.mp ran).2]
      refine ⟨moves_sendtoque _ _ _ _ asked, ?_, fun two => absurd two ‹_›⟩
      obtain ⟨env, rfl⟩ := sendtoque_ok asked
      exact .one rfl trivial

theorem publishQos_flags : ∀ head : UInt8, publishQos head =
    if Protocol.qosFlags head = 3 then none else some (Protocol.qosFlags head) :=
  forall_byte (by decide +kernel)

/-- A packet has just been received on a socket, and is at the front of the
buffer. -/
def JustRead (w : World) (sock : Fin 64) (header : Header) : Prop :=
  ∃ packet earlier, w.trace = .received sock (w.socks sock) packet :: earlier ∧
    Reading.ReadAs w.buf header packet

theorem justRead {header : Header} (sock : Fin 64) (read : readPacket w = .ok (some header, w')) :
    JustRead (w'.log (.received sock (w'.socks sock) (w'.buf.take header.packetLength.toNat))) sock header := by
  have readAs := Reading.readPacket_readAs read
  exact ⟨_, _, rfl, readAs⟩

/-- What is accepted of a packet that has just been read. -/
theorem publish_asReceived {header : Header} {head qos : UInt8} {topicLen packetid : UInt16}
    {topic frame : List UInt8} {w₁ w₂ w₃ w₄ w₅ : World} (just : JustRead w sock header)
    (type : head &&& 0xF0 = 0x30) (looked : byteAt 0 w = .ok (head, w₁)) (valid : publishQos head = some qos)
    (measured : ntohsAt header.curPos w₁ = .ok (topicLen, w₂))
    (named : rangeAt (header.curPos + 2) topicLen.toNat w₂ = .ok (topic, w₃))
    (identified : (if qos > 0 then packetIdAt (header.curPos + 2 + topicLen.toNat) else espRandom) w₃ =
      .ok (packetid, w₄))
    (framed : rangeAt 0 header.packetLength.toNat w₄ = .ok (frame, w₅)) :
    (∃ env, w₅ = { w with env := env }) ∧ AsReceived w.trace sock (w.socks sock) qos packetid topic frame := by
  obtain ⟨packet, earlier, received, read⟩ := just
  obtain ⟨first, same⟩ := byteAt_ok looked
  subst w₁
  obtain rfl := ntohsAt_still measured
  obtain ⟨-, rfl⟩ := rangeAt_ok named
  obtain ⟨env, rfl⟩ : ∃ env, w₄ = { w₃ with env := env } := by
    split at identified
    · exact ⟨w₃.env, packetIdAt_still identified⟩
    · rw [espRandom, get_bind_ok, set_bind_ok] at identified
      exact ⟨_, (pure_ok.mp identified).2⟩
  obtain ⟨same, rfl⟩ := rangeAt_ok framed
  have whole : frame = packet := same.trans read.taken.symm
  have begins : ∀ byte ∈ packet.head?, w₃.buf.getD 0 0 = byte := by
    rw [read.taken]
    intro byte starts
    cases same : w₃.buf with
    | nil =>
      rw [same, List.take_nil] at starts
      cases starts
    | cons first more =>
      rw [same] at starts
      cases count : header.packetLength.toNat with
      | zero =>
        rw [count] at starts
        cases starts
      | succ n =>
        rw [count] at starts
        exact Option.some.inj starts
  refine ⟨⟨env, rfl⟩, ⟨earlier, whole ▸ received⟩, fun byte starts => ?_, fun m decoded => ?_⟩
  · rw [← begins byte (whole ▸ starts), ← first]
    exact type
  rw [whole] at decoded ⊢
  obtain ⟨head, bytes, rest, rfl, qos_flags, named_as, some_id⟩ := Protocol.decode_split decoded
  obtain ⟨topicLen', measured', named', placed⟩ := read.named named_as
  obtain ⟨rfl, -⟩ := Prod.mk.inj (Except.ok.inj (measured.symm.trans measured'))
  obtain ⟨rfl, -⟩ := Prod.mk.inj (Except.ok.inj (named.symm.trans named'))
  rw [first, begins head rfl, publishQos_flags] at valid
  have same_qos : qos = m.qos := by
    split at valid
    · cases valid
    · exact (Option.some.inj valid).symm.trans qos_flags.symm
  refine ⟨rfl, same_qos, fun some_qos => ?_⟩
  obtain ⟨id, found⟩ := some_id (same_qos ▸ some_qos)
  obtain ⟨x, read', same_id⟩ := Reading.packetIdAt_idAt placed found
  rw [if_pos (UInt8.pos_iff_ne_zero.mpr some_qos)] at identified
  obtain ⟨rfl, -⟩ := Prod.mk.inj (Except.ok.inj (identified.symm.trans read'))
  rw [Protocol.publishId, named_as, same_id]
  exact found

theorem publishEvent_moves {header : Header} {u : Unit} (just : JustRead w sock header)
    (type : w.buf.getD 0 0 &&& 0xF0 = 0x30) (ran : publishEvent sock header w = .ok (u, w')) : Moves [] none w w' := by
  obtain ⟨head, w₁, looked, ran⟩ := bind_ok.mp ran
  cases valid : publishQos head with
  | none =>
    rw [valid] at ran
    rw [(byteAt_ok looked).2] at ran
    exact dropConn_moves sock true _ _ _ ran
  | some qos =>
    rw [valid] at ran
    obtain ⟨topicLen, w₂, measured, ran⟩ := bind_ok.mp ran
    obtain ⟨topic, w₃, named, ran⟩ := bind_ok.mp ran
    obtain ⟨packetid, w₄, identified, ran⟩ := bind_ok.mp ran
    obtain ⟨frame, w₅, framed, ran⟩ := bind_ok.mp ran
    obtain ⟨⟨env, rfl⟩, asReceived⟩ := publish_asReceived just ((byteAt_ok looked).1 ▸ type) looked valid measured
      named identified framed
    have moved : Moves [] none w { w with env := env } := Quiet.moves ⟨env, w.buf, rfl⟩
    refine moved.trans ?_
    replace asReceived : AsReceived { w with env := env }.trace sock ({ w with env := env }.socks sock) qos
        packetid topic frame := asReceived
    generalize { w with env := env } = w at ran asReceived
    rw [sockAt_bind_ok, log_bind_ok] at ran
    refine (Acts.one (.message (.accept sock qos packetid topic frame asReceived))).trans ?_
    let accepted := w.log (.publishing sock (w.socks sock) qos packetid topic frame)
    have hand : InHand Event.OfRetained accepted.trace sock (w.socks sock) qos packetid topic frame :=
      ⟨[], w.trace, rfl, List.forall_mem_nil _⟩
    obtain ⟨⟨⟩, w₁, kept, ran⟩ := bind_ok.mp ran
    let m : Admitted :=
      ⟨packetid, frame, topic, some ⟨(w.socks sock).tls, (w.socks sock).clientid⟩, none⟩
    have retained : Moves [m] none accepted w₁ ∧ Logs Event.OfRetained accepted w₁ ∧
        w₁.socks = w.socks := by
      split at kept
      · have unstamped : ∀ m' ∈ [m], m'.stamp = none := List.forall_mem_singleton.mpr rfl
        have source : Source accepted.trace packetid frame qos := .inl ⟨sock, _, topic, List.mem_cons_self⟩
        exact ⟨retainMessage_moves _ _ _ _ unstamped source kept, retainMessage_logs kept⟩
      · rw [(pure_ok.mp kept).2]
        exact ⟨Moves.refl _, ⟨[], rfl, List.forall_mem_nil _⟩, rfl⟩
    obtain ⟨moves, logs, same⟩ := retained
    refine Acts.trans moves ?_
    have hand := logs.inHand hand
    have hand_sock : InHand Event.OfRetained w₁.trace sock (w₁.socks sock) qos packetid topic frame :=
      same.symm ▸ hand
    obtain ⟨⟨⟩, w₂, replied, ran⟩ := bind_ok.mp ran
    obtain ⟨moves, logs, seen⟩ := replyToPublisher_moves hand_sock replied
    refine Acts.trans moves (publishByTopic_moves _ _ _ _ _ ?_ ran)
    refine ⟨fun sender same => ?_, fun _ => seen, fun wrong => (by cases wrong)⟩
    exact ⟨sock, w.socks sock, (Option.some.inj same).symm, logs.inHand hand.reply⟩

/-! ### Acknowledgements -/

/-- The item an acknowledgement finds is logged and is in the state it waits
in; its packet id is the one received, 0 included. -/
theorem findItem_ok {awaited : PacketState} {id : UInt16} {found : Option (PackidStateItem × Nat)}
    (ran : findItem sock awaited w = .ok ((id, found), w')) :
    match found with
    | none => Quiet w w'
    | some (item, i) => item.packetId = id ∧ item.state = awaited ∧ ∃ w₁, Quiet w w₁ ∧
        (w₁.items sock)[i]? = some item ∧
        w' = w₁.log (.acked sock (w₁.socks sock) item.packetId item) := by
  obtain ⟨pubidCheck, w₁, read, ran⟩ := bind_ok.mp ran
  have before : Quiet w w₁ := quiet_packetIdAt 2 _ _ _ read
  rw [get_bind_ok] at ran
  cases search : (w₁.items sock).zipIdx.find? fun entry =>
      entry.1.packetId = pubidCheck ∧ entry.1.state = awaited with
  | none =>
    rw [search] at ran
    obtain ⟨same, rfl⟩ := pure_ok.mp ran
    cases same
    exact before
  | some entry =>
    obtain ⟨item, i⟩ := entry
    rw [search] at ran
    dsimp only at ran
    rw [log_bind_ok] at ran
    obtain ⟨same, rfl⟩ := pure_ok.mp ran
    cases same
    obtain ⟨same_id, same_state⟩ : item.packetId = id ∧ item.state = awaited := by
      simpa using List.find?_some search
    have at_i : (w₁.items sock)[i]? = some item := by
      simpa [List.mem_zipIdx_iff_getElem?] using List.mem_of_find?_eq_some search
    exact ⟨same_id, same_state, w₁, before, at_i, by rw [same_id]⟩

theorem forget_setItem (w : World) (i : Nat) (f : PackidStateItem → PackidStateItem)
    (packetId : UInt16) : (w.setItem sock i f).forget packetId = (w.forget packetId).setItem sock i f := by
  unfold World.forget
  have same : (w.setItem sock i f).publishMsgStore = w.publishMsgStore := rfl
  rw [same]
  cases w.publishMsgStore.get packetId <;> rfl

theorem settle_moves {awaited : PacketState} {settled : PackidStateItem → PackidStateItem}
    (waits : awaited = .getpuback ∨ awaited = .getpubrec)
    (releases : ∀ w sock item, item.state = awaited → Releases w sock item (settled item))
    (sock : Fin 64) (header : Header) (op : Operation) :
    Along (Moves [] none) (settle sock header awaited settled op) := by
  intro w u w' start
  obtain ⟨⟨id, found⟩, w₁, search, ran⟩ := bind_ok.mp start
  have search := findItem_ok search
  cases found with
  | none => exact search.moves.trans (dropConn_moves sock true _ _ _ ran)
  | some found =>
    obtain ⟨item, i⟩ := found
    obtain ⟨same_id, same_state, before, quiet, at_i, same⟩ := search
    subst same_id same_state
    have matched : Moves [] none w w₁ := by
      rw [same]
      exact quiet.moves.trans (.message (.matched sock at_i waits))
    have live : Live w₁ sock item := by
      rw [same]
      exact .inr ⟨_, List.mem_cons_self⟩
    have at_i : (w₁.items sock)[i]? = some item := by
      rw [same]
      exact at_i
    have counted : item.state.Counted := .inr waits
    refine matched.trans ?_
    rw [storeGet_bind_ok] at ran
    obtain ⟨wrong, w₂, checked, ran⟩ := bind_ok.mp ran
    obtain ⟨env, buf, rfl⟩ := quiet_wrongLength header _ _ _ checked
    refine (Quiet.moves ⟨env, buf, rfl⟩).trans ?_
    split at ran
    · cases stored : w₁.publishMsgStore.get item.packetId with
      | none =>
        rw [stored] at ran
        exact dropConn_moves sock true _ _ _ ran
      | some j =>
        rw [stored] at ran
        dsimp only at ran
        rw [get_bind_ok, log_bind_ok] at ran
        refine Moves.trans (.message (.resend sock at_i waits stored)) ?_
        refine publish_moves ran at_i counted ?_ (.inr ⟨?_, List.mem_cons_self, rfl, rfl⟩) ?_ stored rfl
        · exact live.grown ⟨[_], rfl⟩
        · rcases waits with waits | waits <;> rw [waits] <;> exact nofun
        · intro first
          rcases waits with waits | waits <;> rw [waits] at first <;> cases first
    · obtain ⟨⟨⟩, w₃, forgot, ran⟩ := bind_ok.mp ran
      obtain rfl := countDownIf_ok forgot rfl
      rw [modify_bind_ok, ← forget_setItem] at ran
      obtain ⟨_, w₄, asked, ran⟩ := bind_ok.mp ran
      rw [(pure_ok.mp ran).2]
      exact Moves.trans (.message
        (.release sock item.packetId settled at_i counted live (.inl rfl) (releases _ _ item rfl)))
        (moves_sendtoque _ _ _ _ asked)

theorem advance_moves {awaited : PacketState} {advanced : PackidStateItem → PackidStateItem}
    (waits : awaited = .getpubrel ∨ awaited = .getpubcomp)
    (advances : ∀ item, item.state = awaited → Advances item (advanced item)) (sock : Fin 64)
    (header : Header) (op : Operation) :
    Along (Moves [] none) (advance sock header awaited advanced op) := by
  refine moves_bind (fun _ _ _ => moves_quiet (quiet_wrongLength header)) fun wrong => ?_
  split
  · exact dropConn_moves sock true
  · intro w u w' start
    obtain ⟨⟨id, found⟩, w₁, search, ran⟩ := bind_ok.mp start
    have search := findItem_ok search
    cases found with
    | none => exact search.moves.trans (dropConn_moves sock true _ _ _ ran)
    | some found =>
      obtain ⟨item, i⟩ := found
      obtain ⟨-, same_state, before, quiet, at_i, rfl⟩ := search
      rw [modify_bind_ok] at ran
      obtain ⟨_, w₄, asked, ran⟩ := bind_ok.mp ran
      rw [(pure_ok.mp ran).2]
      have answered : MessageAct _ [] _ [] :=
        .answer sock advanced at_i (same_state ▸ waits) (advances item same_state)
      exact (quiet.moves.trans (.message answered)).trans (moves_sendtoque _ _ _ _ asked)

theorem pubackEvent_moves (sock : Fin 64) (header : Header) :
    Along (Moves [] none) (pubackEvent sock header) := by
  unfold pubackEvent
  apply settle_moves (.inl rfl)
  exact fun _ _ _ state => .acked state

theorem pubrecEvent_moves (sock : Fin 64) (header : Header) :
    Along (Moves [] none) (pubrecEvent sock header) := by
  unfold pubrecEvent
  apply settle_moves (.inr rfl)
  exact fun _ _ _ state => .received state

theorem pubcompEvent_moves (sock : Fin 64) (header : Header) :
    Along (Moves [] none) (pubcompEvent sock header) := by
  unfold pubcompEvent
  apply advance_moves (.inr rfl)
  exact fun _ state => .done (by simp [state])

theorem pubrelEvent_moves (sock : Fin 64) (header : Header) :
    Along (Moves [] none) (pubrelEvent sock header) := by
  unfold pubrelEvent
  apply advance_moves (.inl rfl)
  exact fun _ state => .next (by simp [state])

/-! ### SUBSCRIBE and UNSUBSCRIBE -/

theorem sendRetained_moves (sock : Fin 64) (topic : Key) (reqQos : UInt8) :
    Along (Moves owed masked) (sendRetained sock topic reqQos) := by
  intro w u w' ran
  unfold sendRetained at ran
  rw [get_bind_ok] at ran
  obtain ⟨retained, kept, ran⟩ := check_bind_ok ran
  cases retained with
  | none =>
    obtain rfl := log_ok.mp ran
    refine .message (.unknown sock topic fun packetId held => ?_)
    cases kept.symm.trans held
  | some packetId =>
    dsimp only at ran
    rw [storeGet_bind_ok] at ran
    cases found : w.publishMsgStore.get packetId with
    | none =>
      rw [found] at ran
      obtain rfl := log_ok.mp ran
      refine .message (.unknown sock topic fun other held => ?_)
      cases kept.symm.trans held
      exact found
    | some i =>
      rw [found] at ran
      dsimp only at ran
      rw [get_bind_ok] at ran
      obtain ⟨ok, w₁, asked, ran⟩ := bind_ok.mp ran
      refine (moves_sendtoque _ _ _ _ asked).trans ?_
      obtain ⟨env, rfl⟩ := sendtoque_ok asked
      cases ok with
      | true =>
        rw [if_pos rfl, sockAt_bind_ok] at ran
        obtain ⟨⟨⟩, w₂, added, ran⟩ := bind_ok.mp ran
        obtain ⟨⟨⟩, w₃, counted, ran⟩ := bind_ok.mp ran
        obtain rfl := countUp_ok.mp counted
        obtain rfl := log_ok.mp ran
        exact .message (.deliver sock _ kept found (addPacketId_ok added))
      | false =>
        rw [if_neg Bool.false_ne_true] at ran
        obtain rfl := log_ok.mp ran
        exact .message (.unheard sock kept found List.mem_cons_self)

theorem subscribeTopic_moves (sock : Fin 64) (topic : Key) (reqQos : UInt8) (suback : Myvector UInt8) :
    Along (Moves [] none) (subscribeTopic sock topic reqQos suback) := by
  intro w a w' ran
  rw [subscribeTopic, sockAt_bind_ok] at ran
  obtain ⟨addr, client, attached, held, ran⟩ := deref_bind_ok ran
  rw [get_bind_ok] at ran
  obtain ⟨result, subscribed, ran⟩ := check_bind_ok ran
  rw [onHeap_bind_ok] at ran
  obtain ⟨⟨⟩, w₁, changed, ran⟩ := bind_ok.mp ran
  obtain ⟨_, same, rfl⟩ := setClient_ok changed
  obtain rfl := Option.some.inj (same.symm.trans attached)
  rw [log_bind_ok, onHeap_bind_ok] at ran
  obtain ⟨⟨⟩, w₂, sent, ran⟩ := bind_ok.mp ran
  obtain ⟨-, rfl⟩ := pure_ok.mp ran
  refine Moves.trans ?_ (sendRetained_moves _ _ _ _ _ _ sent)
  exact Moves.trans (.session (.resubscribe sock result.2.1.subscriptions attached held))
    (Quiet.moves ⟨_, w.buf, rfl⟩)

theorem subscribeLoop_moves (sock : Fin 64) (turns curPos : Nat) (packetLength : UInt16)
    (suback : Myvector UInt8) :
    Along (Moves [] none) (subscribeLoop sock turns curPos packetLength suback) := by
  induction turns generalizing curPos packetLength suback with
  | zero => exact fun _ _ _ ran => absurd ran fault_ok
  | succ turns ih =>
    unfold subscribeLoop
    split
    · exact Along.pure Moves.refl _
    refine moves_bind (fun _ _ _ => moves_quiet (quiet_ntohsAt _)) fun topicLen => ?_
    refine moves_bind (fun _ _ _ => moves_quiet (quiet_rangeAt _ _)) fun topic => ?_
    refine moves_bind (fun _ _ _ => moves_quiet (quiet_byteAt _)) fun reqQos => ?_
    exact moves_bind (subscribeTopic_moves _ _ _ _) fun suback => ih _ _ _

theorem quiet_subackLength (turns pos insertId : Nat) (subAckLen : UInt16)
    (suback : Myvector UInt8) :
    Along Quiet (subackLength turns pos insertId subAckLen suback) := by
  induction turns generalizing pos insertId subAckLen suback with
  | zero => exact quiet_fault _
  | succ turns ih =>
    unfold subackLength
    dsimp only
    split
    · refine quiet_bind (quiet_onHeap _) fun inserted => ?_
      split
      · exact quiet_pure _
      · split
        · exact quiet_fault _
        · exact ih _ _ _ _
    · exact quiet_pure _

theorem answer_moves (sock : Fin 64) (bytes : List UInt8) (msg : Message) :
    Along (Moves owed masked) (do
      let _ ← connWrite sock bytes none
      let _ ← sendtoque msg) :=
  moves_bind (moves_write sock bytes) fun _ =>
    moves_bind (moves_sendtoque msg) fun _ => Along.pure Moves.refl _

theorem subscribeEvent_moves (sock : Fin 64) (header : Header) :
    Along (Moves [] none) (subscribeEvent sock header) := by
  refine moves_bind (fun _ _ _ => moves_quiet (quiet_byteAt _)) fun head => ?_
  split
  · exact dropConn_moves sock true
  refine moves_bind (fun _ _ _ => moves_quiet (quiet_onHeap _)) fun suback => ?_
  split
  · exact dropConn_moves sock true
  refine moves_bind (fun _ _ _ => moves_quiet (quiet_byteAt _)) fun msb => ?_
  refine moves_bind (fun _ _ _ => moves_quiet (quiet_byteAt _)) fun lsb => ?_
  refine moves_bind (subscribeLoop_moves _ _ _ _ _) fun suback => ?_
  refine moves_bind (fun _ _ _ => moves_quiet (quiet_subackLength _ _ _ _ _)) fun written => ?_
  cases written with
  | none => exact dropConn_moves sock true
  | some suback => exact answer_moves _ _ _

theorem unsubscribeTopic_moves (sock : Fin 64) (topic : Key) :
    Along (Moves [] none) (unsubscribeTopic sock topic) := by
  intro w a w' ran
  rw [unsubscribeTopic, sockAt_bind_ok] at ran
  obtain ⟨addr, client, attached, held, ran⟩ := deref_bind_ok ran
  obtain ⟨left, unsubscribed, ran⟩ := check_bind_ok ran
  obtain ⟨⟨⟩, w₁, changed, ran⟩ := bind_ok.mp ran
  obtain ⟨_, same, rfl⟩ := setClient_ok changed
  obtain rfl := Option.some.inj (same.symm.trans attached)
  obtain rfl := log_ok.mp ran
  exact .session (.resubscribe sock left.subscriptions attached held)

theorem unsubscribeLoop_moves (sock : Fin 64) (turns curPos : Nat) (packetLength : UInt16) :
    Along (Moves [] none) (unsubscribeLoop sock turns curPos packetLength) := by
  induction turns generalizing curPos packetLength with
  | zero => exact fun _ _ _ ran => absurd ran fault_ok
  | succ turns ih =>
    unfold unsubscribeLoop
    split
    · exact Along.pure Moves.refl _
    refine moves_bind (fun _ _ _ => moves_quiet (quiet_ntohsAt _)) fun topicLen => ?_
    refine moves_bind (fun _ _ _ => moves_quiet (quiet_rangeAt _ _)) fun topic => ?_
    exact moves_bind (unsubscribeTopic_moves _ _) fun _ => ih _ _

theorem unsubscribeEvent_moves (sock : Fin 64) (header : Header) :
    Along (Moves [] none) (unsubscribeEvent sock header) := by
  refine moves_bind (fun _ _ _ => moves_quiet (quiet_byteAt _)) fun head => ?_
  refine moves_bind ?_ fun _ => ?_
  · split
    · exact dropConn_moves sock true
    · exact Along.pure Moves.refl _
  refine moves_bind (fun _ _ _ => moves_quiet (quiet_byteAt _)) fun msb => ?_
  refine moves_bind (fun _ _ _ => moves_quiet (quiet_byteAt _)) fun lsb => ?_
  refine moves_bind (unsubscribeLoop_moves _ _ _ _) fun _ => ?_
  exact moves_bind (fun _ _ _ => moves_quiet quiet_stackByte) fun _ => answer_moves _ _ _

/-! ### The other packets -/

theorem disconnectEvent_moves (sock : Fin 64) : Along (Moves [] none) (disconnectEvent sock) := by
  intro w u w' ran
  rw [disconnectEvent, sockAt_bind_ok] at ran
  obtain ⟨addr, client, attached, held, ran⟩ := deref_bind_ok ran
  rw [log_bind_ok] at ran
  obtain ⟨⟨⟩, w₁, changed, ran⟩ := bind_ok.mp ran
  obtain ⟨_, same, rfl⟩ := setClient_ok changed
  obtain rfl := Option.some.inj (same.symm.trans attached)
  exact Moves.trans (.session (.disconnect sock attached held))
    (dropConn_moves sock false _ _ _ ran)

theorem dispatch_moves {header : Header} {u : Unit} (just : JustRead w sock header)
    (ran : dispatch sock header w = .ok (u, w')) : Moves [] none w w' := by
  obtain ⟨head, w₁, looked, ran⟩ := bind_ok.mp ran
  obtain ⟨rfl, same⟩ := byteAt_ok looked
  subst same
  split at ran
  · exact publishEvent_moves just ‹_› ran
  split at ran
  · exact pubackEvent_moves sock header _ _ _ ran
  split at ran
  · exact pubrecEvent_moves sock header _ _ _ ran
  split at ran
  · exact pubcompEvent_moves sock header _ _ _ ran
  split at ran
  · exact pubrelEvent_moves sock header _ _ _ ran
  split at ran
  · exact subscribeEvent_moves sock header _ _ _ ran
  split at ran
  · exact unsubscribeEvent_moves sock header _ _ _ ran
  split at ran
  · exact answer_moves _ _ _ _ _ _ ran
  split at ran
  · exact disconnectEvent_moves sock _ _ _ ran
  · rw [(pure_ok.mp ran).2]
    exact Moves.refl _

theorem readEvent_moves (sock : Fin 64) : Along (Moves [] none) (readEvent sock) := by
  intro w₀ u w' ran
  obtain ⟨packet, w, read, ran⟩ := bind_ok.mp ran
  refine (moves_quiet quiet_readPacket read).trans ?_
  cases packet with
  | none => exact dropConn_moves sock true _ _ _ ran
  | some header =>
    dsimp only at ran
    rw [get_bind_ok, log_bind_ok] at ran
    have received : Moves [] none w (w.log
        (.received sock (w.socks sock) (w.buf.take header.packetLength.toNat))) := moves_note trivial
    refine received.trans ?_
    split at ran
    · rename_i unnamed
      exact connectEvent_moves unnamed ran
    · exact dispatch_moves (justRead sock read) ran

/-! ### The write branch -/

theorem sendAck_moves (kind : Protocol.Ack) {item : PackidStateItem} {i : Nat}
    {sent : PackidStateItem → PackidStateItem}
    {u : Unit} (ran : sendAck sock i item kind.type sent w = .ok (u, w'))
    (at_i : (w.items sock)[i]? = some item) (used : item.packetId ≠ 0)
    (answers : answerIn item.state = some kind) (advances : Advances item (sent item)) :
    Moves owed masked w w' := by
  obtain ⟨ok, w₁, wrote, ran⟩ := bind_ok.mp ran
  obtain ⟨env, rfl⟩ := connWrite_ok wrote
  obtain rfl := modify_ok.mp ran
  exact (Quiet.moves ⟨env, w.buf, rfl⟩).trans
    (.message (.reply (w := { w with env := env }) sock _ sent at_i used ⟨kind, answers, rfl⟩ advances))

theorem transmit_moves {item : PackidStateItem} {i : Nat} {u : Unit}
    (ran : transmit sock i item w = .ok (u, w')) (at_i : (w.items sock)[i]? = some item)
    (used : item.packetId ≠ 0)
    (first : ∀ k < i, ∀ other, (w.items sock)[k]? = some other → ¬ PackidStateItem.Pending other) :
    Moves owed masked w w' := by
  unfold transmit at ran
  cases state : item.state <;> rw [state] at ran
  case sendpuback =>
    exact sendAck_moves .puback ran at_i used (by rw [state]; rfl) (.done (by simp [state]))
  case sendpubrec =>
    exact sendAck_moves .pubrec ran at_i used (by rw [state]; rfl) (.next (by simp [state]))
  case sendpubrel =>
    exact sendAck_moves .pubrel ran at_i used (by rw [state]; rfl) (.next (by simp [state]))
  case sendpubcomp =>
    exact sendAck_moves .pubcomp ran at_i used (by rw [state]; rfl) (.done (by simp [state]))
  case sendpublish =>
    rw [storeGet_bind_ok] at ran
    cases found : w.publishMsgStore.get item.packetId with
    | none =>
      rw [found] at ran
      rw [(pure_ok.mp ran).2]
      exact Moves.refl w
    | some j =>
      rw [found] at ran
      exact publish_moves (get_bind_ok.mp ran) at_i (.inl state) (.inl used) (.inl ⟨state, rfl, rfl⟩)
        (fun _ => ⟨used, first⟩) found rfl
  all_goals
    rw [(pure_ok.mp ran).2]
    exact Moves.refl w

/-- Until something is sent the items are those the loop runs over, and those
it has passed wait for nothing. -/
theorem writeLoop_moves {items : List PackidStateItem} {i : Nat} {packetidPtr : Option Nat}
    {alreadySent more : Bool}
    (ran : writeLoop sock i items packetidPtr alreadySent w = .ok (more, w'))
    (unsent : alreadySent = false → packetidPtr = none ∧ (∀ k, (w.items sock)[i + k]? = items[k]?) ∧
      ∀ k < i, ∀ other, (w.items sock)[k]? = some other → ¬ PackidStateItem.Pending other) :
    Moves owed masked w w' := by
  induction items generalizing w i packetidPtr alreadySent with
  | nil =>
    rw [(pure_ok.mp ran).2]
    exact Moves.refl w
  | cons item rest ih =>
    unfold writeLoop at ran
    dsimp only at ran
    by_cases pending : PackidStateItem.Pending item
    · rw [if_pos pending, if_neg (Option.some_ne_none i)] at ran
      cases alreadySent with
      | true =>
        rw [if_pos rfl] at ran
        rw [(pure_ok.mp ran).2]
        exact Moves.refl w
      | false =>
        obtain ⟨-, snapshot, passed⟩ := unsent rfl
        rw [if_neg Bool.false_ne_true] at ran
        obtain ⟨⟨⟩, w₁, sent, ran⟩ := bind_ok.mp ran
        exact (transmit_moves sent (snapshot 0) pending.1 passed).trans (ih ran nofun)
    · rw [if_neg pending] at ran
      split at ran
      · refine ih ran fun still => ?_
        obtain ⟨seen, snapshot, passed⟩ := unsent still
        refine ⟨seen, fun k => ?_, fun k before other at_k => ?_⟩
        · rw [Nat.add_assoc, Nat.add_comm 1 k, snapshot, List.getElem?_cons_succ]
        · rcases Nat.lt_succ_iff_lt_or_eq.mp before with before | rfl
          · exact passed k before other at_k
          · obtain rfl : item = other := Option.some.inj ((snapshot 0).symm.trans at_k)
            exact pending
      · rename_i seen
        cases alreadySent with
        | true =>
          rw [if_pos rfl] at ran
          rw [(pure_ok.mp ran).2]
          exact Moves.refl w
        | false => exact absurd (unsent rfl).1 seen

theorem writeEvent_moves (sock : Fin 64) : Along (Moves owed masked) (writeEvent sock) := by
  intro w u w' ran
  rw [writeEvent, get_bind_ok] at ran
  obtain ⟨more, w₁, looped, ran⟩ := bind_ok.mp ran
  obtain ⟨_, w₂, asked, ran⟩ := bind_ok.mp ran
  rw [(pure_ok.mp ran).2]
  exact (writeLoop_moves looped fun _ => ⟨rfl, fun k => by rw [Nat.zero_add], nofun⟩).trans
    (moves_sendtoque _ _ _ _ asked)

/-! ### One message -/

theorem mqttPhase_moves (msg : Message) : Along (Moves [] none) (mqttPhase msg) := by
  unfold mqttPhase
  cases msg.op with
  | read => exact readEvent_moves _
  | write => exact writeEvent_moves _
  | delread | delall => exact Along.pure Moves.refl _

theorem setPhase_moves (sock : Fin 64) (phs : Phase) :
    Along (Moves [] none) (setSock sock ({ · with phs := phs })) := by
  intro w u w' ran
  obtain rfl := setSock_ok.mp ran
  exact .session (.phase sock phs)

theorem awaitHandshake_moves (sock : Fin 64) (first : Bool) (op : Operation) :
    Along (Moves [] none) (awaitHandshake sock first op) := by
  refine moves_bind (moves_sendtoque _) fun _ => ?_
  split
  · exact setPhase_moves sock .tlsHandshake
  · exact Along.pure Moves.refl _

theorem handshakeEvent_moves (msg : Message) (first : Bool) :
    Along (Moves [] none) (handshakeEvent msg first) := by
  refine moves_bind (fun _ _ _ => moves_quiet quiet_handshake) fun code => ?_
  split
  · exact dropConn_moves _ true
  split
  · exact moves_bind (setPhase_moves _ _) fun _ =>
      moves_bind (moves_sendtoque _) fun _ => Along.pure Moves.refl _
  split
  · exact awaitHandshake_moves _ _ _
  split
  · exact awaitHandshake_moves _ _ _
  · exact mqttPhase_moves msg

theorem startTls_moves (sock : Fin 64) : Along (Moves owed masked) (startTls sock) := by
  intro w u w' ran
  rw [startTls, get_bind_ok, log_bind_ok, setSock_bind_ok] at ran
  obtain rfl := modify_ok.mp ran
  exact .message (.start sock)

theorem handle_moves (msg : Message) : Along (Moves [] none) (handle msg) := by
  intro w u w' ran
  rw [handle, sockAt_bind_ok] at ran
  cases phs : (w.socks msg.socket).phs <;> rw [phs] at ran
  case uninit =>
    obtain ⟨memory, w₁, allocated, ran⟩ := bind_ok.mp ran
    refine (moves_quiet (quiet_onHeap _) allocated).trans ?_
    split at ran
    · exact moves_bind (startTls_moves _) (fun _ => handshakeEvent_moves msg true) _ _ _ ran
    · obtain rfl := log_ok.mp ran
      exact moves_note trivial
  case tlsHandshake => exact handshakeEvent_moves msg false _ _ _ ran
  case mqtt => exact mqttPhase_moves msg _ _ _ ran

end MqttBroker.Worker
