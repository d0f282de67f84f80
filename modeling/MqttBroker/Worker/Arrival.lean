import MqttBroker.Worker.Completion

/-! When the packet of an event is read to its end, when a CONNECT is, and when
what an event writes is. -/
namespace MqttBroker.Arrival
open Logic Protocol Worker World FanOut Conclusion Rejection Decoding Completion

variable {w w₁ w' : World} {sock : Fin 64} {α : Type}

/-! ### Reading a packet -/

section Packets
open RemainingLength Framing Reading

/-- What is read of a payload stays in the buffer. -/
theorem readPayload_ends {fuel left pos : Nat} (enough : left ≤ fuel) (room : pos ≤ buffSize)
    (sized : w.buf.length = buffSize) :
    Ends w (readPayload fuel pos left) ↔ pos + min left (arriving w.env.inbound).length ≤ buffSize := by
  induction fuel generalizing pos left w with
  | zero =>
    obtain rfl := Nat.le_zero.mp enough
    exact iff_of_true (ends_of_ok rfl) (by omega)
  | succ fuel ih =>
    rw [readPayload]
    by_cases all : left = 0
    · rw [if_pos all, all]
      exact iff_of_true (ends_of_ok rfl) (by omega)
    rw [if_neg all]
    by_cases none : arriving w.env.inbound = []
    · obtain ⟨w₁, ran, -⟩ := connRead_none pos left none room
      refine iff_of_true ((completes_next ran).mpr (ends_of_ok rfl)) ?_
      rw [none, List.length_nil]
      omega
    obtain ⟨bytes, filled, short, part, fails, reads⟩ := connRead_chunk pos left none (by omega)
    have taken := List.length_pos_of_ne_nil filled
    by_cases inside : pos + bytes.length ≤ buffSize
    · obtain ⟨w₁, ran, took, split⟩ := reads inside
      refine (completes_next ran).trans ?_
      rw [if_neg (by omega)]
      refine (ih (by omega) inside (by rw [took.length (by omega), sized])).trans ?_
      rw [split, List.length_append]
      omega
    · have more := part.length_le
      refine iff_of_false (fun ends => not_completes (fails (by omega)) (completes_bind.mp ends)) ?_
      omega

/-- A packet whose length bytes, and whose payload if that is read at all, are
not written outside the buffer. -/
def Readable : List UInt8 → Prop
  | [] => True
  | _ :: stream => (lengthBytes stream).length < buffSize ∧ (Ended stream →
      value (lengthBytes stream) % 65536 + (1 + (lengthBytes stream).length) % 256 ≤ 1024 →
        1 + (lengthBytes stream).length + min (value (lengthBytes stream) % 65536)
          (stream.length - (lengthBytes stream).length) ≤ buffSize)

theorem readPacket_ends (sized : w.buf.length = buffSize) :
    Ends w readPacket ↔ Readable (arriving w.env.inbound) := by
  cases arrives : arriving w.env.inbound with
  | nil =>
    obtain ⟨w₁, ran, -⟩ := connRead_none 0 1 arrives (Nat.zero_le _)
    exact iff_of_true ((completes_next ran).mpr (ends_of_ok rfl)) trivial
  | cons head stream =>
    obtain ⟨w₁, first, took₁, arrives₁⟩ := connRead_one arrives (show 0 < buffSize by decide)
    have sized₁ : w₁.buf.length = buffSize := by
      rw [took₁.length (by simp [sized, buffSize]), sized]
    refine (completes_next first).trans ?_
    rw [if_neg Nat.one_ne_zero, Readable]
    by_cases fits : (lengthBytes stream).length < buffSize
    swap
    · have outside := readLength_outside stream buffSize 1 0 1 1 arrives₁ sized₁ (by decide) (by decide) (by omega)
      exact iff_of_false (fun ends => not_completes outside (completes_bind.mp ends)) fun both => fits both.1
    rw [and_iff_right fits]
    obtain ⟨w₂, answer, took₂, split⟩ := readLength_answer sized₁ (by rwa [arrives₁])
    rw [arrives₁] at answer took₂ split
    by_cases ended : Ended stream
    swap
    · rw [if_neg ended] at answer
      exact iff_of_true ((completes_next answer).mpr (ends_of_ok rfl)) fun wrong => absurd wrong ended
    rw [if_pos ended] at answer
    refine (completes_next answer).trans ?_
    have length : (UInt16.ofNat (value (lengthBytes stream))).toNat = value (lengthBytes stream) % 65536 :=
      UInt16.toNat_ofNat'
    have count : (UInt8.ofNat (1 + (lengthBytes stream).length)).toNat = (1 + (lengthBytes stream).length) % 256 :=
      UInt8.toNat_ofNat'
    dsimp only
    rw [length, count, imp_iff_right ended]
    by_cases large : value (lengthBytes stream) % 65536 + (1 + (lengthBytes stream).length) % 256 > 1024
    · rw [if_pos large]
      exact iff_of_true (ends_of_ok rfl) fun wrong => by omega
    · rw [if_neg large, imp_iff_right (Nat.le_of_not_gt large)]
      have rest : (arriving w₂.env.inbound).length = stream.length - (lengthBytes stream).length := by
        have sizes := congrArg List.length (split ended)
        rw [List.length_append] at sizes
        omega
      rw [← rest]
      refine Iff.trans ?_ (readPayload_ends (Nat.le_refl _) (by omega) (by rw [took₂.length (by omega), sized₁]))
      exact ends_then fun error t => by split <;> exact ends_of_ok rfl

theorem connRead_sized {pos len n : Nat} (sized : w.buf.length = buffSize)
    (ran : connRead pos len w = .ok (n, w')) : w'.buf.length = buffSize := by
  cases held : w.env.inbound with
  | nil =>
    rw [connRead, get_bind_ok, held] at ran
    rw [(pure_ok.mp ran).2, sized]
  | cons chunk rest =>
    by_cases inside : pos + (chunk.take len).length ≤ buffSize
    · rw [connRead_cons pos len held inside] at ran
      obtain ⟨-, rfl⟩ := Prod.mk.inj (Except.ok.inj ran)
      simp only [List.length_append, List.length_take, List.length_drop] at inside ⊢
      omega
    · rw [connRead, get_bind_ok, held] at ran
      dsimp only at ran
      rw [if_pos (by omega)] at ran
      exact absurd ran fault_ok

/-- The buffer keeps its size. -/
theorem readPacket_sized {ret : Option Header} (sized : w.buf.length = buffSize)
    (ran : readPacket w = .ok (ret, w')) : w'.buf.length = buffSize := by
  have looks (pos : Nat) : Along (fun w w' => w.buf.length = buffSize → w'.buf.length = buffSize) (byteAt pos) := by
    intro w byte w' ran sized
    rwa [(byteAt_ok ran).2]
  exact along_readPacket (R := fun w w' => w.buf.length = buffSize → w'.buf.length = buffSize) (fun _ => id)
    (fun _ _ _ first rest => rest ∘ first) (fun _ _ _ _ _ ran sized => connRead_sized sized ran) looks _ _ _ ran sized

/-- A packet that was read is in the buffer. -/
theorem readPacket_bounds {header : Header} (sized : w.buf.length = buffSize)
    (ran : readPacket w = .ok (some header, w')) :
    w'.buf.length = buffSize ∧ header.curPos ≤ w'.buf.length ∧ header.packetLength.toNat ≤ w'.buf.length := by
  have sized' := readPacket_sized sized ran
  have buffer : buffSize = 1024 := rfl
  obtain ⟨read, head, length, measured, fits, rfl, -, inside⟩ := readPacket_front ran
  refine ⟨sized', Nat.le_trans (Nat.le_add_right _ _) inside, ?_⟩
  rw [UInt16.toNat_add, UInt8.toNat_toUInt16, sized']
  exact Nat.le_trans (Nat.mod_le _ _) fits

end Packets

/-! ### CONNECT -/

/-- A new client is put into the table and found there, if there is memory for
it. -/
def Enterable (w : World) (sock : Fin 64) : Prop :=
  w.env.heap.alloc.1 = true → ∃ added,
    w.clientStore.add (w.socks sock).clientid (Client.new w.nextAddr w.env.heap.alloc.2).1
      (Client.new w.nextAddr w.env.heap.alloc.2).2 = .ok added ∧
    (added.1 = true → ∃ client, added.2.1.get (w.socks sock).clientid = .ok (some client))

/-- The client of an accepted CONNECT is stored, and not for this socket, or can
be entered. -/
def Admits (w : World) (sock : Fin 64) : Prop :=
  ∃ stored, w.clientStore.get (w.socks sock).clientid = .ok stored ∧ (stored = none → Enterable w sock) ∧
    ∀ client, stored = some client → client.sock ≠ some sock

/-- A CONNECT that a client may send, or that is refused. -/
def Connects (w : World) (sock : Fin 64) (head : UInt8) (body : List UInt8) : Prop :=
  Fronted head body fun flags clientid rest => Options w flags rest fun heap =>
    Admits (withHeap (named w sock clientid) heap) sock

theorem connectMqtt_iff {curPos : Nat} {head : UInt8} {body : List UInt8} (first : Holds w.buf 0 [head])
    (left : Left w.buf curPos body) :
    Completes w (connectMqtt sock curPos) (Going (Admits · sock)) ↔ Connects w sock head body :=
  connectMqtt_fronted sock first left (fun _ => .inl rfl) fun flags clientid _ _ left =>
    readOptions_iff (w := named w sock clientid) (willOfFlags_present flags) left

/-- The client of a socket is stored. -/
def Holding (w : World) (sock : Fin 64) : Prop :=
  ∃ addr client, (w.socks sock).client = some addr ∧ w.clientAt addr = some client

theorem requestAfterConnack_ends {addr : Nat} {hasQuedMsgs : Bool} :
    Ends w (requestAfterConnack sock (some addr) hasQuedMsgs) := by
  cases hasQuedMsgs <;> exact ends_of_ok rfl

theorem acceptConnect_ends {clean : Bool} {will : Will} {prev : Option Client} :
    Ends w (acceptConnect sock clean will prev) ↔ Holding w sock := by
  refine (completes_next (sockAt_run w sock)).trans (completes_deref.trans ?_)
  refine ⟨fun ⟨addr, client, attached, held, _⟩ => ⟨addr, client, attached, held⟩, ?_⟩
  rintro ⟨addr, client, attached, held⟩
  refine ⟨addr, client, attached, held, ?_⟩
  rw [attached]
  have assigned : onHeap (client.will.assign will) w = .ok (_, _) := rfl
  refine (completes_next assigned).mpr ?_
  have written (w : World) (f : Client → Client) : setClient (some addr) f w = .ok ((), w.setClient addr f) := rfl
  refine (completes_next (written _ _)).mpr ?_
  have answered (w : World) : connAck sock 0x00 cleanSessionFlag w = .ok (_, _) := rfl
  refine (completes_next (answered _)).mpr ((completes_next (log_run _ _)).mpr ?_)
  exact requestAfterConnack_ends

theorem get_member {m : Myhashmap α} {key : Key} {data : α} (got : m.get key = .ok (some data)) :
    ∃ node ∈ m.nodes, node.data = data := by
  simp only [Myhashmap.get, Myhashmap.chain, bind, Except.bind] at got
  split at got
  · cases got
  · rename_i id indexed
    cases held : m.buckets[id]? with
    | none =>
      rw [held] at got
      cases got
    | some chain =>
      rw [held] at got
      obtain ⟨node, found, rfl⟩ := Option.map_eq_some_iff.mp (Except.ok.inj got)
      exact ⟨node, Myhashmap.mem_nodes.mpr ⟨id, chain, held, List.mem_of_find?_eq_some found⟩, rfl⟩

/-- What is found in the table can be pointed to. -/
theorem get_held {key : Key} {client : Client} (got : w.clientStore.get key = .ok (some client)) :
    ∃ found, w.clientAt client.addr = some found := by
  obtain ⟨node, member, rfl⟩ := get_member got
  refine Option.isSome_iff_exists.mp (List.find?_isSome.mpr ⟨node.data, List.mem_map_of_mem member, ?_⟩)
  exact decide_eq_true rfl

theorem newClient_ends : Ends w (newClient sock (w.socks sock).clientid) ↔ Enterable w sock := by
  have allocated : onHeap Heap.alloc w = .ok (w.env.heap.alloc.1, withHeap w w.env.heap.alloc.2) := rfl
  refine (completes_next allocated).trans ?_
  by_cases memory : w.env.heap.alloc.1 = true
  swap
  · rw [if_neg memory]
    exact iff_of_true (ends_of_ok rfl) fun wrong => absurd wrong memory
  rw [if_pos memory, Enterable, imp_iff_right memory]
  refine (completes_next (get_run _)).trans ?_
  have made : onHeap (Client.new w.nextAddr) (withHeap w w.env.heap.alloc.2) =
    .ok ((Client.new w.nextAddr w.env.heap.alloc.2).1,
      withHeap w (Client.new w.nextAddr w.env.heap.alloc.2).2) := rfl
  refine (completes_next made).trans ((completes_next (get_run _)).trans (completes_check.trans ?_))
  refine exists_congr fun added => and_congr_right fun _ => ?_
  have put (w w₁ : World) : (set w₁ : Worker Unit) w = .ok ((), w₁) := rfl
  refine (completes_next (put _ _)).trans ?_
  by_cases stored : added.1 = true
  swap
  · rw [if_neg stored]
    exact iff_of_true (ends_of_ok rfl) fun wrong => absurd wrong stored
  rw [if_pos stored, imp_iff_right stored]
  refine completes_check.trans ⟨?_, ?_⟩
  · rintro ⟨client, found, ends⟩
    cases client with
    | none =>
      have recorded (w : World) : setSock sock ({ · with client := none }) w = .ok ((), _) := rfl
      exact absurd (completes_bind.mp ((completes_next (recorded _)).mp ends)) (not_completes rfl)
    | some client => exact ⟨client, found⟩
  · rintro ⟨client, found⟩
    exact ⟨some client, found, ends_of_ok rfl⟩

/-- A new client is stored for its socket. -/
theorem newClient_held {clientid : Key} (ran : newClient sock clientid w = .ok (true, w')) : Holding w' sock := by
  rw [newClient, onHeap_bind_ok] at ran
  split at ran
  swap
  · cases (pure_ok.mp ran).1
  rw [get_bind_ok, onHeap_bind_ok, get_bind_ok] at ran
  obtain ⟨added, stored, ran⟩ := check_bind_ok ran
  rw [set_bind_ok] at ran
  split at ran
  swap
  · cases (pure_ok.mp ran).1
  obtain ⟨client, found, ran⟩ := check_bind_ok ran
  rw [setSock_bind_ok] at ran
  obtain ⟨⟨⟩, mid, set, ran⟩ := bind_ok.mp ran
  obtain ⟨addr, same, rfl⟩ := setClient_ok set
  obtain ⟨-, rfl⟩ := pure_ok.mp ran
  obtain ⟨client, rfl, rfl⟩ := Option.map_eq_some_iff.mp same
  let w₁ : World := { w with
    clientStore := added.2.1, env := { w.env with heap := added.2.2 }, nextAddr := w.nextAddr + 1 }
  obtain ⟨held, there⟩ := get_held (w := w₁) found
  refine ⟨client.addr, { held with sock := some sock }, ?_, ?_⟩
  · rw [setClient_socks, setSock_socks]
    rfl
  · refine (clientAt_setClient (f := ({ · with sock := some sock })) fun _ => rfl).trans ?_
    exact congrArg (Option.map _) there

theorem takeOver_runs {client : Client} (other : client.sock ≠ some sock) (holding : Holding w sock) :
    ∃ w', takeOver sock client w = .ok ((), w') ∧ Holding w' sock := by
  obtain ⟨addr, found, attached, held⟩ := holding
  cases recorded : client.sock with
  | none =>
    refine ⟨w, ?_, addr, found, attached, held⟩
    rw [takeOver, recorded]
    rfl
  | some prevSock =>
    have different : sock ≠ prevSock := by
      rintro rfl
      exact other recorded
    let w₁ := ({ w with env := { w.env with sends := w.env.sends.tail } }.log
      (.queued ⟨prevSock, .delall⟩ (w.env.sends.headD true))).log
        (.evicting prevSock (w.socks prevSock) (w.socks sock).clientid client)
    let w₂ := w₁.setSock prevSock ({ · with phs := .uninit, client := none, clientid := [] })
    have still : (w₂.socks sock).client = some addr := by
      rw [setSock_other _ _ different]
      exact attached
    have run : takeOver sock client w = (do
        let client ← deref (w₂.socks sock).client
        Worker.log (.closed prevSock)
        if client.cleanSession then
          let cleared ← onHeap client.delSubs
          Worker.setClient (w₂.socks sock).client ({ · with subscriptions := cleared.subscriptions })
        else pure ()) w₂ := by
      rw [takeOver, recorded]
      rfl
    have there : w₂.clientAt addr = some found := held
    rw [run, still, bind_of_ok (deref_held there), bind_of_ok (log_run _ _)]
    split
    · let clear (client : Client) : Client :=
        { client with subscriptions := (found.delSubs w₂.env.heap).1.subscriptions }
      refine ⟨_, rfl, addr, clear found, still, ?_⟩
      refine (clientAt_setClient (f := clear) fun _ => rfl).trans ?_
      exact congrArg (Option.map clear) there
    · exact ⟨_, rfl, addr, found, still, there⟩

/-- A takeover of the socket's own connection looks for the client that it has
reset. -/
theorem takeOver_stuck {client : Client} (own : client.sock = some sock) : ¬ Ends w (takeOver sock client) := by
  rintro ⟨u, w', ran, -⟩
  rw [takeOver, own] at ran
  obtain ⟨ok, w₁, asked, ran⟩ := bind_ok.mp ran
  rw [sockAt_bind_ok, sockAt_bind_ok, log_bind_ok, setSock_bind_ok, sockAt_bind_ok] at ran
  obtain ⟨addr, held, still, -⟩ := deref_bind_ok ran
  rw [setSock_socks] at still
  cases still

/-! ### Writes -/

/-- The message of an item is not empty, and a write that fails is for a client
that is stored. -/
def Transmits (w : World) (sock : Fin 64) (item : PackidStateItem) : Prop :=
  item.state = .sendpublish → ∀ i, w.publishMsgStore.get item.packetId = some i →
    (w.nodeAt i).data ≠ [] ∧ (w.env.writes.headD true = false → Holding w sock)

theorem publish_ends {frame : List UInt8} {qos : UInt8} {packetId : UInt16} {i : Nat} {item : PackidStateItem}
    {deleteRetain : Bool} : Ends w (publish frame qos packetId sock i item deleteRetain) ↔
      frame ≠ [] ∧ (w.env.writes.headD true = false → Holding w sock) := by
  cases frame with
  | nil => exact iff_of_false (not_completes rfl) fun both => both.1 rfl
  | cons head rest =>
    rw [and_iff_right (List.cons_ne_nil _ _)]
    let w₁ := { w with env := { w.env with writes := w.env.writes.tail } }.log
      (.wrote sock (w.socks sock) (publishHeader head qos deleteRetain :: rest) (some item))
    have wrote : connWrite sock (publishHeader head qos deleteRetain :: rest) (some item) w =
      .ok (w.env.writes.headD true, w₁) := rfl
    refine (completes_next wrote).trans ((completes_next (storeGet_run _ _)).trans ?_)
    have last (w : World) (written : Bool) (node : Option Nat) : Ends w (do
        if qos = 0 || !written then
          modify (·.setItem sock i fun item => { item with packetId := 0 })
          countDownIf packetId node
        else
          modify (·.setItem sock i fun item => { item with
            state := if qos = 1 then .getpuback else .getpubrec })
          if node = none then
            let _ ← storeAdd packetId ((head ||| duplicationFlag) :: rest) qos 1
          else pure ()) := by
      have put (f : World → World) : (modify f : Worker Unit) w = .ok ((), f w) := rfl
      split
      · exact (completes_next (put _)).mpr countDownIf_ends
      · refine (completes_next (put _)).mpr ?_
        by_cases gone : node = none
        · rw [if_pos gone]
          exact ends_of_ok rfl
        · rw [if_neg gone]
          exact ends_of_ok rfl
    refine (ends_then fun _ _ => last _ _ _).trans ?_
    unfold logFailure
    cases written : w.env.writes.headD true with
    | true => exact iff_of_true (ends_of_ok rfl) nofun
    | false =>
      rw [if_neg (by simp), imp_iff_right rfl]
      refine (completes_next (sockAt_run _ _)).trans (completes_deref.trans ?_)
      refine ⟨fun ⟨addr, client, attached, held, _⟩ => ⟨addr, client, attached, held⟩, ?_⟩
      rintro ⟨addr, client, attached, held⟩
      exact ⟨addr, client, attached, held, ends_of_ok rfl⟩

theorem transmit_ends {i : Nat} {item : PackidStateItem} :
    Ends w (transmit sock i item) ↔ Transmits w sock item := by
  have acks (type : UInt8) (sent : PackidStateItem → PackidStateItem) : Ends w (sendAck sock i item type sent) :=
    ends_of_ok rfl
  unfold transmit Transmits
  cases item.state with
  | sendpublish =>
    rw [imp_iff_right rfl]
    refine (completes_next (storeGet_run _ _)).trans ?_
    cases w.publishMsgStore.get item.packetId with
    | none => exact iff_of_true (ends_of_ok rfl) nofun
    | some node =>
      refine (completes_next (get_run _)).trans (publish_ends.trans ?_)
      exact ⟨fun ends i same => Option.some.inj same ▸ ends, fun all => all node rfl⟩
  | sendpuback | sendpubrec | sendpubrel | sendpubcomp => exact iff_of_true (acks _ _) nofun
  | _ => exact iff_of_true (ends_of_ok rfl) nofun

/-- A write event sends the first item that waits, and that only. -/
theorem writeLoop_ends {items : List PackidStateItem} {i : Nat} :
    Ends w (writeLoop sock i items none false) ↔
      ∀ item, items.find? (PackidStateItem.Pending ·) = some item → Transmits w sock item := by
  have rest (w : World) (items : List PackidStateItem) (i j : Nat) :
      Ends w (writeLoop sock i items (some j) true) := by
    cases items with
    | nil => exact ends_of_ok rfl
    | cons item items =>
      unfold writeLoop
      rw [if_neg (by split <;> simp), if_pos rfl]
      exact ends_of_ok rfl
  induction items generalizing i with
  | nil =>
    refine iff_of_true (ends_of_ok rfl) fun item wrong => ?_
    cases wrong
  | cons item items ih =>
    unfold writeLoop
    by_cases pending : PackidStateItem.Pending item
    · rw [if_pos pending, if_neg (Option.some_ne_none i), if_neg (by decide),
        List.find?_cons_of_pos (p := fun x => decide (PackidStateItem.Pending x)) (decide_eq_true pending)]
      refine (ends_then fun _ _ => rest _ _ _ _).trans (transmit_ends.trans ?_)
      exact ⟨fun ends item same => Option.some.inj same ▸ ends, fun all => all item rfl⟩
    · rw [if_neg pending, if_pos rfl,
        List.find?_cons_of_neg (p := fun x => decide (PackidStateItem.Pending x)) (by simpa using pending)]
      exact ih

end MqttBroker.Arrival
