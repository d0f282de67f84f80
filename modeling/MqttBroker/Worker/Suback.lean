import MqttBroker.Worker.Filters
import MqttBroker.Worker.Runs

/-! The SUBACK. Its remaining length is written through a pointer into the
vector, which an insertion may move: the vector has room for one more element
exactly if the number of codes is even. -/
namespace MqttBroker.Suback
open Logic Protocol RemainingLength Worker World Decoding Framing Filters Rejection

variable {w w' w₁ : World} {sock : Fin 64}

/-! ### Allocations that succeed -/

theorem rehash_supplied {α : Type} {m m' : Myhashmap α} {newSize : Nat} {heap : Heap}
    (ran : m.rehash newSize [] = .ok (m', heap)) : heap = [] := by
  rw [Myhashmap.rehash, Heap.alloc_nil, if_pos rfl] at ran
  simp only [bind, Except.bind] at ran
  split at ran
  · cases ran
  · cases ran
    rfl

theorem add_supplied {α : Type} {m m' : Myhashmap α} {key : Key} {data : α} {added : Bool} {heap : Heap}
    (ran : m.add key data [] = .ok (added, m', heap)) : heap = [] := by
  simp only [Myhashmap.add, bind, Except.bind, Heap.alloc_nil, if_true, Myvector.ofRange_heap_nil] at ran
  split at ran
  · cases ran
  · split at ran
    · cases ran
      rfl
    · split at ran
      · cases ran
      · split at ran
        · split at ran
          · cases ran
          · rename_i grown
            cases ran
            exact rehash_supplied grown
        · cases ran
          rfl

theorem new_supplied : (Subscription.new []).2 = [] := rfl

theorem addSub_supplied {fuel : Nat} {topic : Key} {qos code : UInt8} {cur after : Subscription} {heap : Heap}
    (ran : Subscription.addSub fuel topic qos cur [] = .ok (code, after, heap)) : heap = [] := by
  induction fuel generalizing topic cur code after heap with
  | zero => cases ran
  | succ fuel ih =>
    rw [Subscription.addSub] at ran
    by_cases done : topic.length = 0
    · rw [if_pos done] at ran
      cases ran
      rfl
    · rw [if_neg done] at ran
      simp only [bind, Except.bind, Heap.alloc_nil, if_true, new_supplied] at ran
      split at ran
      · cases ran
      · split at ran
        · split at ran
          · cases ran
          · rename_i below
            cases ran
            exact ih below
        · split at ran
          · cases ran
          · rename_i added
            have supplied := add_supplied added
            split at ran
            · cases ran
            · split at ran
              · cases ran
                exact supplied
              · split at ran
                · cases ran
                · rename_i below
                  cases ran
                  rw [supplied] at below
                  exact ih below

theorem pushBack_supplied {α : Type} (v : Myvector α) (val : α) : (v.pushBack val []).2 = [] := by
  simp only [Myvector.pushBack, Heap.alloc_nil, if_true]
  split <;> rfl

theorem pushBack_heap {α : Type} (v : Myvector α) (val : α) (supplied : w.env.heap = []) :
    onHeap (v.pushBack val) w = .ok ((v.pushBack val []).1, w) := by
  have unchanged : { w with env := { w.env with heap := [] } } = w := by rw [← supplied]
  change Except.ok ((v.pushBack val w.env.heap).1,
    { w with env := { w.env with heap := (v.pushBack val w.env.heap).2 } }) = _
  rw [supplied, pushBack_supplied, unchanged]

/-- The code's call of `insert`. -/
theorem insert_run {α : Type} {v : Myvector α} {pos : Nat} (val : α) (inside : pos < v.size) :
    onHeap (fun heap => ((((v.insert pos val heap).1, (v.insert pos val heap).2.1)), (v.insert pos val heap).2.2)) w =
      if v.size < v.capacity then .ok ((true, ⟨v.elems.take pos ++ val :: v.elems.drop pos, v.capacity⟩), w)
      else if w.env.heap.alloc.1 then .ok ((true, ⟨v.elems.take pos ++ val :: v.elems.drop pos, v.capacity + 2⟩),
        withHeap w w.env.heap.alloc.2)
      else .ok ((false, v), withHeap w w.env.heap.alloc.2) := by
  change Except.ok (((v.insert pos val w.env.heap).1, (v.insert pos val w.env.heap).2.1),
    withHeap w (v.insert pos val w.env.heap).2.2) = _
  rw [Myvector.insert, if_neg (Nat.not_le_of_lt inside)]
  by_cases room : v.size < v.capacity
  · rw [if_neg (by omega), if_pos room]
    rfl
  · rw [if_pos (by omega), if_neg room]
    by_cases memory : w.env.heap.alloc.1 = true
    · rw [if_pos memory, if_pos memory]
      rfl
    · rw [if_neg memory, if_neg memory]

theorem addPacketId_supplied {item : PackidStateItem} {u : Unit} (supplied : w.env.heap = [])
    (ran : addPacketId sock item w = .ok (u, w')) : w'.env.heap = [] := by
  rw [addPacketId, get_bind_ok] at ran
  cases found : (w.items sock).findIdx? (·.packetId = 0) with
  | some i =>
    rw [found] at ran
    dsimp only at ran
    rw [log_bind_ok] at ran
    obtain rfl := modify_ok.mp ran
    exact supplied
  | none =>
    rw [found] at ran
    dsimp only at ran
    rw [onHeap_bind_ok, log_bind_ok] at ran
    obtain rfl := setSock_ok.mp ran
    change ((w.socks sock).packidState.pushBack item w.env.heap).2 = []
    rw [supplied]
    exact pushBack_supplied _ _

/-! ### One topic -/

theorem sendRetained_supplied {topic : Key} {reqQos : UInt8} {u : Unit} (supplied : w.env.heap = [])
    (ran : sendRetained sock topic reqQos w = .ok (u, w')) : w'.env.heap = [] := by
  rw [sendRetained, get_bind_ok] at ran
  obtain ⟨retained, -, ran⟩ := check_bind_ok ran
  cases retained with
  | none =>
    obtain rfl := log_ok.mp ran
    exact supplied
  | some packetId =>
    dsimp only at ran
    rw [storeGet_bind_ok] at ran
    cases found : w.publishMsgStore.get packetId with
    | none =>
      rw [found] at ran
      obtain rfl := log_ok.mp ran
      exact supplied
    | some i =>
      rw [found] at ran
      dsimp only at ran
      rw [get_bind_ok] at ran
      obtain ⟨ok, w₁, asked, ran⟩ := bind_ok.mp ran
      have kept : w₁.env.heap = [] := by
        obtain ⟨-, rfl⟩ := Prod.mk.inj (Except.ok.inj asked)
        exact supplied
      cases ok with
      | true =>
        rw [if_pos rfl, sockAt_bind_ok] at ran
        obtain ⟨⟨⟩, w₂, added, ran⟩ := bind_ok.mp ran
        obtain ⟨⟨⟩, w₃, counted, ran⟩ := bind_ok.mp ran
        obtain rfl := countUp_ok.mp counted
        obtain rfl := log_ok.mp ran
        have left := addPacketId_supplied kept added
        exact left
      | false =>
        rw [if_neg Bool.false_ne_true] at ran
        obtain rfl := log_ok.mp ran
        exact kept

/-- A topic that `subscribe` answers has its code added to the SUBACK, whatever
that has already. -/
theorem subscribeTopic_eq {topic : Key} {reqQos code : UInt8} {addr : Nat} {client after : Client}
    (suback : Myvector UInt8) (supplied : w.env.heap = []) (attached : (w.socks sock).client = some addr)
    (held : w.clientAt addr = some client)
    (subscribed : client.subscribe w.env.fuel topic (if reqQos > 2 then 2 else reqQos) [] = .ok (code, after, [])) :
    subscribeTopic sock topic reqQos suback w = (do
      sendRetained sock topic (if reqQos > 2 then 2 else reqQos)
      pure (suback.pushBack code []).1)
        ((w.setClient addr fun client => { client with subscriptions := after.subscriptions }).log
          (.resubscribed (w.socks sock).clientid after.subscriptions)) := by
  have unchanged : { w with env := { w.env with heap := [] } } = w := by rw [← supplied]
  have followed : deref (w.socks sock).client w = .ok (client, w) := by rw [attached, deref_held held]
  have answered : check (client.subscribe w.env.fuel topic (if reqQos > 2 then 2 else reqQos) w.env.heap) w =
      .ok ((code, after, []), w) := by
    rw [supplied, subscribed]
    rfl
  have freed : onHeap (fun _ => ((), ([] : Heap))) w = .ok ((), w) := by
    change Except.ok ((), { w with env := { w.env with heap := [] } }) = _
    rw [unchanged]
  have here : sockAt sock w = .ok (w.socks sock, w) := rfl
  have seen : (get : Worker World) w = .ok (w, w) := rfl
  rw [subscribeTopic, bind_of_ok here, bind_of_ok followed, bind_of_ok seen, bind_of_ok answered, bind_of_ok freed,
    attached]
  dsimp only
  have changed : setClient (some addr) (fun client => { client with subscriptions := after.subscriptions }) w =
      .ok ((), w.setClient addr fun client => { client with subscriptions := after.subscriptions }) := rfl
  rw [bind_of_ok changed]
  have told (w : World) (e : Event) : log e w = .ok ((), w.log e) := rfl
  rw [bind_of_ok (told _ _)]
  exact bind_of_ok (pushBack_heap suback code supplied)

theorem subscribe_supplied {fuel : Nat} {topic : Key} {qos code : UInt8} {client after : Client} {heap : Heap}
    (ran : client.subscribe fuel topic qos [] = .ok (code, after, heap)) : heap = [] := by
  simp only [Client.subscribe, bind, Except.bind] at ran
  split at ran
  · cases ran
  · rename_i added
    cases ran
    exact addSub_supplied added

/-- The code a turn adds to one SUBACK it adds to any other. -/
theorem subscribeTopic_code {topic : Key} {reqQos : UInt8} {before after : Myvector UInt8}
    (supplied : w.env.heap = []) (ran : subscribeTopic sock topic reqQos before w = .ok (after, w')) :
    w'.env.heap = [] ∧ ∃ code, ∀ suback : Myvector UInt8,
      subscribeTopic sock topic reqQos suback w = .ok ((suback.pushBack code []).1, w') := by
  have turn := ran
  rw [subscribeTopic, sockAt_bind_ok] at turn
  obtain ⟨addr, client, attached, held, turn⟩ := deref_bind_ok turn
  rw [get_bind_ok] at turn
  obtain ⟨⟨code, client', heap⟩, subscribed, -⟩ := check_bind_ok turn
  rw [supplied] at subscribed
  obtain rfl := subscribe_supplied subscribed
  rw [subscribeTopic_eq before supplied attached held subscribed] at ran
  obtain ⟨⟨⟩, w₁, sent, ran⟩ := bind_ok.mp ran
  obtain ⟨-, rfl⟩ := pure_ok.mp ran
  have left : w'.env.heap = [] := by
    refine sendRetained_supplied ?_ sent
    exact supplied
  refine ⟨left, code, fun suback => ?_⟩
  rw [subscribeTopic_eq suback supplied attached held subscribed, bind_of_ok sent]
  rfl

/-! ### The codes of a SUBSCRIBE -/

/-- The turns for some filters, and the codes they add. -/
def collect (sock : Fin 64) : List (List UInt8 × UInt8) → Worker (List UInt8)
  | [] => pure []
  | entry :: rest => do
    let suback ← subscribeTopic sock entry.1 entry.2 {}
    let codes ← collect sock rest
    pure (suback.elems ++ codes)

/-- A vector with some elements more. -/
def pushed (v : Myvector UInt8) (codes : List UInt8) : Myvector UInt8 :=
  codes.foldl (fun v code => (v.pushBack code []).1) v

theorem subscribeLoop_collects {entries : List (List UInt8 × UInt8)} {codes : List UInt8} {pos turns : Nat}
    (suback : Myvector UInt8) (collected : collect sock entries w = .ok (codes, w₁)) (supplied : w.env.heap = [])
    (holds : Holds w.buf pos (entries.flatMap encodeSubscription)) (enough : entries.length < turns)
    (short : (entries.flatMap encodeSubscription).length < 65536) :
    subscribeLoop sock turns pos (.ofNat (entries.flatMap encodeSubscription).length) suback w =
        .ok (pushed suback codes, w₁) ∧ codes.length = entries.length ∧ w₁.env.heap = [] := by
  induction entries generalizing pos turns suback w codes with
  | nil =>
    cases turns with
    | zero => exact absurd enough (Nat.not_lt_zero _)
    | succ turns =>
      obtain ⟨rfl, rfl⟩ := pure_ok.mp collected
      exact ⟨rfl, rfl, supplied⟩
  | cons entry rest ih =>
    cases turns with
    | zero => exact absurd enough (Nat.not_lt_zero _)
    | succ turns =>
      obtain ⟨first, w₂, turn, after⟩ := bind_ok.mp collected
      obtain ⟨later, w₃, others, ends⟩ := bind_ok.mp after
      obtain ⟨rfl, rfl⟩ := pure_ok.mp ends
      obtain ⟨supplied', code, anew⟩ := subscribeTopic_code supplied turn
      obtain ⟨rfl, -⟩ := Prod.mk.inj (Except.ok.inj (turn.symm.trans (anew {})))
      have kept : w₂.buf = w.buf := subscribeTopic_still sock entry.1 entry.2 {} w _ _ turn
      have behind : Holds w₂.buf (pos + (encodeSubscription entry).length) (rest.flatMap encodeSubscription) := by
        rw [kept]
        exact holds.right
      rw [List.flatMap_cons, List.length_append] at short
      obtain ⟨looped, size, left⟩ := ih (suback.pushBack code []).1 others supplied' behind
        (Nat.lt_of_succ_lt_succ enough) (by omega)
      refine ⟨?_, congrArg (· + 1) size, left⟩
      have turns := (subscribe_payload sock).turn entry (rest.flatMap encodeSubscription) turns pos suback w holds
        (by rw [List.length_append]; omega)
      rw [List.flatMap_cons, turns, bind_of_ok (anew suback)]
      exact looped

/-- What the SUBACK is when all codes are in it. -/
theorem pushed_codes (msb lsb : UInt8) (codes : List UInt8) :
    pushed ⟨[0x90, 0, msb, lsb], 5⟩ codes =
      ⟨0x90 :: 0 :: msb :: lsb :: codes, 5 + 2 * (codes.length / 2)⟩ := by
  induction codes using List.reverseRecOn with
  | nil => rfl
  | append_singleton codes code ih =>
    rw [pushed, List.foldl_append]
    change ((pushed _ codes).pushBack code []).1 = _
    rw [ih]
    simp only [Myvector.pushBack, Myvector.size, Heap.alloc_nil, if_true, Myvector.capacityResize, List.length_cons,
      List.length_append, List.length_nil, List.cons_append]
    split
    · rw [Myvector.mk.injEq]
      exact ⟨rfl, by omega⟩
    · rw [Myvector.mk.injEq]
      exact ⟨rfl, by omega⟩

/-! ### The length -/

/-- A SUBACK. -/
def subackPacket (msb lsb : UInt8) (codes : List UInt8) : List UInt8 :=
  0x90 :: (encode 4 (2 + codes.length) ++ msb :: lsb :: codes)

theorem byte_more (n : Nat) : (UInt8.ofNat (n % 128) ||| 128) = .ofNat (n % 128 + 128) := by
  have all : ∀ r : Fin 128, (UInt8.ofNat r ||| 128) = .ofNat (r + 128) := by decide
  exact all ⟨n % 128, Nat.mod_lt _ (by decide)⟩

section Length
variable {turns pos insertId : Nat} {len : UInt16} {suback : Myvector UInt8}

theorem subackLength_last (small : len.toNat < 128) :
    subackLength (turns + 1) pos insertId len suback w =
      .ok (some { suback with elems := suback.elems.set pos (.ofNat len.toNat) }, w) := by
  have byte : (len % 128).toUInt8 = .ofNat len.toNat := by
    rw [← UInt8.toNat_inj, UInt16.toNat_toUInt8, UInt16.toNat_mod, UInt8.toNat_ofNat']
    change len.toNat % 128 % 256 = len.toNat % 256
    omega
  have done : ¬ len / 128 > 0 := by
    rw [gt_iff_lt, UInt16.lt_iff_toNat_lt, UInt16.toNat_div]
    change ¬ 0 < len.toNat / 128
    omega
  rw [subackLength, if_neg done, byte]
  rfl

/-- A length byte more: the vector must not move for it. -/
theorem subackLength_second (large : 128 ≤ len.toNat) (inside : insertId < suback.size) :
    subackLength (turns + 1) pos insertId len suback w =
      if suback.size < suback.capacity then
        let written := suback.elems.set pos (.ofNat (len.toNat % 128 + 128))
        subackLength turns (pos + 1) (insertId + 1) (len / 128)
          ⟨written.take insertId ++ 0 :: written.drop insertId, suback.capacity⟩ w
      else if w.env.heap.alloc.1 then .error .nullDeref
      else .ok (none, withHeap w w.env.heap.alloc.2) := by
  have byte : (len % 128).toUInt8 ||| 128 = .ofNat (len.toNat % 128 + 128) := by
    rw [← byte_more]
    congr 1
  have more : len / 128 > 0 := by
    rw [gt_iff_lt, UInt16.lt_iff_toNat_lt, UInt16.toNat_div]
    change 0 < len.toNat / 128
    omega
  rw [subackLength, if_pos more, byte]
  generalize write : ({ suback with elems := suback.elems.set pos (.ofNat (len.toNat % 128 + 128)) } :
    Myvector UInt8) = written
  have size : written.size = suback.size := by
    subst write
    exact List.length_set
  have capacity : written.capacity = suback.capacity := by
    subst write
    rfl
  have inserts := insert_run (w := w) (v := written) 0 (size ▸ inside)
  rw [size, capacity] at inserts
  dsimp only
  by_cases room : suback.size < suback.capacity
  · rw [if_pos room] at inserts
    rw [bind_of_ok inserts, if_pos room, if_neg (by simp), if_neg (by simp [capacity])]
    subst write
    rfl
  · rw [if_neg room] at inserts
    by_cases memory : w.env.heap.alloc.1 = true
    · rw [if_pos memory] at inserts
      rw [bind_of_ok inserts, if_neg room, if_pos memory, if_neg (by simp), if_pos (by simp [capacity])]
      rfl
    · rw [if_neg memory] at inserts
      rw [bind_of_ok inserts, if_neg room, if_neg memory, if_pos (by simp)]
      rfl

end Length

/-- The length is written for these numbers of codes. -/
def Fitting (n : Nat) : Prop := n ≤ 125 ∨ n % 2 = 0

instance : DecidablePred Fitting := fun n => inferInstanceAs (Decidable (n ≤ 125 ∨ n % 2 = 0))

theorem subackLength_codes (msb lsb : UInt8) {codes : List UInt8} {size : Nat} (supplied : w.env.heap = [])
    (few : codes.length ≤ 340) (sized : size = 2 + codes.length) :
    subackLength 4 1 2 size.toUInt16 ⟨0x90 :: 0 :: msb :: lsb :: codes, 5 + 2 * (codes.length / 2)⟩ w =
      if Fitting codes.length then
        .ok (some ⟨subackPacket msb lsb codes, 5 + 2 * (codes.length / 2)⟩, w)
      else .error .nullDeref := by
  subst sized
  have number : (Nat.toUInt16 (2 + codes.length)).toNat = 2 + codes.length :=
    Nat.mod_eq_of_lt (by omega)
  have quotient : (Nat.toUInt16 (2 + codes.length) / 128).toNat = (2 + codes.length) / 128 := by
    rw [UInt16.toNat_div, number]
    rfl
  by_cases small : 2 + codes.length < 128
  · rw [subackLength_last (number.symm ▸ small), if_pos (.inl (by omega)), number, subackPacket, encode, if_pos small]
    rfl
  · rw [subackLength_second (by omega) (by simp [Myvector.size]), number]
    by_cases even : codes.length % 2 = 0
    · rw [if_pos (by simp only [Myvector.size, List.length_cons]; omega), if_pos (.inr even)]
      dsimp only
      rw [subackLength_last (by omega), quotient, subackPacket, encode, if_neg small, encode, if_pos (by omega)]
      rfl
    · rw [if_neg (by simp only [Myvector.size, List.length_cons]; omega), supplied,
        if_pos (show (Heap.alloc []).1 = true from rfl), if_neg (by simp only [Fitting]; omega)]

/-! ### The event -/

/-- The event writes these bytes after what the loop does, and nothing else. -/
def Answers (sock : Fin 64) (header : Header) (w w₁ : World) (bytes : List UInt8) : Prop :=
  ∃ w' ok, subscribeEvent sock header w = .ok ((), w') ∧
    w'.trace = .queued ⟨sock, .read⟩ ok :: .wrote sock (w₁.socks sock) bytes none :: w₁.trace

variable {packet : Packet} {header : Header} {msb lsb : UInt8} {entries : List (List UInt8 × UInt8)}
  {codes : List UInt8}

theorem few_entries (body : packet.body = msb :: lsb :: entries.flatMap encodeSubscription) :
    entries.length ≤ 340 ∧ (entries.flatMap encodeSubscription).length < 65536 := by
  have three (entries : List (List UInt8 × UInt8)) :
      3 * entries.length ≤ (entries.flatMap encodeSubscription).length := by
    induction entries with
    | nil => exact Nat.zero_le _
    | cons entry rest ih =>
      rw [List.flatMap_cons, List.length_append, encodeSubscription, List.length_append, length_field,
        List.length_cons, List.length_singleton]
      omega
  have fits := packet.fits
  have buffer : buffSize = 1024 := rfl
  have some := three entries
  rw [body, List.length_cons, List.length_cons] at fits
  constructor <;> omega

theorem reserve_suback (supplied : w.env.heap = []) :
    onHeap (fun heap =>
      let result := ({} : Myvector UInt8).reserve 5 heap
      ((result.1, result.2.1), result.2.2)) w = .ok ((true, ⟨[], 5⟩), w) := by
  have unchanged : { w with env := { w.env with heap := [] } } = w := by rw [← supplied]
  change Except.ok ((_, _), _) = _
  simp only [Myvector.reserve, supplied, Heap.alloc_nil, if_true, unchanged]

/-- What the event comes to behind the loop. -/
theorem subscribeEvent_collects (describes : Describes header packet)
    (reserved : packet.head &&& 0x0F = subscribeReserved)
    (body : packet.body = msb :: lsb :: entries.flatMap encodeSubscription) (read : packet.encoded <+: w.buf)
    (supplied : w.env.heap = []) (collected : collect sock entries w = .ok (codes, w₁)) :
    subscribeEvent sock header w =
      if Fitting entries.length then (do
        let _ ← connWrite sock (subackPacket msb lsb codes) none
        let _ ← sendtoque ⟨sock, .read⟩) w₁
      else .error .nullDeref := by
  obtain ⟨few, short⟩ := few_entries body
  have buffer : buffSize = 1024 := rfl
  obtain ⟨back, same⟩ := read
  have head : Holds w.buf 0 [packet.head] :=
    ⟨[], packet.length ++ packet.body ++ back, by simp [← same, Packet.encoded], rfl⟩
  have rest : Holds w.buf header.curPos packet.body := by
    refine ⟨packet.head :: packet.length, back, by simp [← same, Packet.encoded], ?_⟩
    rw [describes.curPos, List.length_cons, Nat.add_comm]
  rw [body] at rest
  have enough : entries.length < buffSize := by omega
  obtain ⟨looped, size, left⟩ := subscribeLoop_collects ⟨[0x90, 0, msb, lsb], 5⟩ collected supplied rest.tail.tail
    enough short
  rw [subscribeEvent, bind_of_ok (byteAt_holds head), if_neg (not_not_intro reserved),
    bind_of_ok (reserve_suback supplied), if_neg (by simp), bind_of_ok (byteAt_holds rest),
    bind_of_ok (byteAt_holds rest.tail), describes.left_over body, bind_of_ok looped, pushed_codes]
  have total : (⟨0x90 :: 0 :: msb :: lsb :: codes, 5 + 2 * (codes.length / 2)⟩ : Myvector UInt8).size - 2 =
      2 + codes.length := by
    simp only [Myvector.size, List.length_cons]
    omega
  have length := subackLength_codes msb lsb left (size ▸ few) total
  rw [← size]
  by_cases fitting : Fitting codes.length
  · rw [if_pos fitting] at length ⊢
    rw [bind_of_ok length]
  · rw [if_neg fitting] at length ⊢
    rw [bind_of_error length]

/-- With memory, the SUBACK of a SUBSCRIBE is what MQTT has for its packet id and
its codes, but for an odd number of filters from 127 on. -/
theorem suback_encoded_iff (sock : Fin 64) (packet : Packet) (header : Header) (w w₁ : World) (msb lsb : UInt8)
    (entries : List (List UInt8 × UInt8)) (codes : List UInt8) (describes : Describes header packet)
    (reserved : packet.head &&& 0x0F = subscribeReserved)
    (body : packet.body = msb :: lsb :: entries.flatMap encodeSubscription) (read : packet.encoded <+: w.buf)
    (supplied : w.env.heap = []) (collected : collect sock entries w = .ok (codes, w₁)) :
    Answers sock header w w₁ (subackPacket msb lsb codes) ↔ entries.length ≤ 125 ∨ entries.length % 2 = 0 := by
  rw [Answers, subscribeEvent_collects describes reserved body read supplied collected]
  by_cases fitting : Fitting entries.length
  · rw [if_pos fitting]
    exact iff_of_true ⟨_, _, rfl, rfl⟩ fitting
  · rw [if_neg fitting]
    refine iff_of_false ?_ fitting
    rintro ⟨w', ok, ran, -⟩
    cases ran

/-! ### An even and an odd number of filters -/

def evenEntries : List (List UInt8 × UInt8) := List.replicate 126 ([97], 0)

def manyEntries : List (List UInt8 × UInt8) := List.replicate 127 ([97], 0)

/-- A SUBSCRIBE for 126 topics, whose SUBACK has a length of two bytes. -/
def evenTopics : Packet :=
  ⟨0x82, [0xFA, 3], 0 :: 1 :: evenEntries.flatMap encodeSubscription, by decide, by decide,
    by decide +kernel, by decide +kernel⟩

/-- A SUBSCRIBE for 127 topics. -/
def manyTopics : Packet :=
  ⟨0x82, [0xFE, 3], 0 :: 1 :: manyEntries.flatMap encodeSubscription, by decide, by decide,
    by decide +kernel, by decide +kernel⟩

/-- The codes for a connected client that has such a packet in the buffer. -/
theorem connected_collects (packet : Packet) (entries : List (List UInt8 × UInt8))
    (collects : ((initial .clean).run [accepting 0, reading 0 (connectPacket [97] 2)]).toOption.any
      (fun w => (collect 0 entries { w with buf := packet.encoded, env := { fuel := 4 } }).toOption.isSome) = true) :
    ∃ w codes w₁, w.buf = packet.encoded ∧ w.env.heap = [] ∧ collect 0 entries w = .ok (codes, w₁) := by
  obtain ⟨w, -, -, shown⟩ := reached_run _ _ _ collects
  cases collected : collect 0 entries { w with buf := packet.encoded, env := { fuel := 4 } } with
  | error fault =>
    rw [collected] at shown
    cases shown
  | ok result => exact ⟨_, result.1, result.2, rfl, rfl, collected⟩

/-- A byte is inserted for the length, without the vector being moved. -/
theorem evenTopics_encoded : ∃ w codes w₁, w.buf = evenTopics.encoded ∧ collect 0 evenEntries w = .ok (codes, w₁) ∧
    Answers 0 ⟨509, 3, 3⟩ w w₁ (subackPacket 0 1 codes) := by
  obtain ⟨w, codes, w₁, buf, supplied, collected⟩ := connected_collects evenTopics evenEntries (by decide +kernel)
  have described : Describes ⟨509, 3, 3⟩ evenTopics := ⟨by decide +kernel, rfl, rfl⟩
  exact ⟨w, codes, w₁, buf, collected, (suback_encoded_iff 0 evenTopics ⟨509, 3, 3⟩ w w₁ 0 1 evenEntries codes described
    rfl rfl (buf ▸ List.prefix_refl _) supplied collected).mpr (.inr (by decide +kernel))⟩

/-- The vector moves under the pointer for 127 codes. -/
theorem manyTopics_unanswered : ∃ w codes w₁, w.buf = manyTopics.encoded ∧ w.env.heap = [] ∧
    collect 0 manyEntries w = .ok (codes, w₁) ∧ ¬ Answers 0 ⟨513, 3, 3⟩ w w₁ (subackPacket 0 1 codes) := by
  obtain ⟨w, codes, w₁, buf, supplied, collected⟩ := connected_collects manyTopics manyEntries (by decide +kernel)
  refine ⟨w, codes, w₁, buf, supplied, collected, ?_⟩
  rintro ⟨w', ok, ran, -⟩
  have described : Describes ⟨513, 3, 3⟩ manyTopics := ⟨by decide +kernel, rfl, rfl⟩
  rw [subscribeEvent_collects described rfl rfl (buf ▸ List.prefix_refl _) supplied collected,
    if_neg (by decide +kernel)] at ran
  cases ran

end MqttBroker.Suback
