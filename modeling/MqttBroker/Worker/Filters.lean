import MqttBroker.Worker.FanOut
import MqttBroker.Worker.Framing
import MqttBroker.Worker.Rejection

/-! The payloads of SUBSCRIBE and UNSUBSCRIBE. Their loops count the bytes that
are left down in 16 bits and stop at 0 only, so they follow a list of filters
exactly, and leave the packet where the payload is none. A filter that the tree
of subscriptions does not return from is the last that is looked at. -/
namespace MqttBroker.Filters
open Logic Protocol Worker Decoding Framing Rejection World

variable {w w' w₁ : World} {F σ : Type} {pos turns : Nat} {rest : List UInt8}

/-! ### One topic keeps the buffer -/

/-- The buffer is as before. -/
def Still (w w' : World) : Prop := w'.buf = w.buf

theorem added_buf {sock : Fin 64} {item : PackidStateItem} (added : ItemAdded w sock item w') :
    w'.buf = w.buf := by
  cases added <;> rfl

theorem sendRetained_still (sock : Fin 64) (topic : Key) (reqQos : UInt8) :
    Along Still (sendRetained sock topic reqQos) := by
  intro w u w' ran
  rw [sendRetained, get_bind_ok] at ran
  obtain ⟨retained, -, ran⟩ := check_bind_ok ran
  cases retained with
  | none =>
    obtain rfl := log_ok.mp ran
    exact rfl
  | some packetId =>
    dsimp only at ran
    rw [storeGet_bind_ok] at ran
    cases found : w.publishMsgStore.get packetId with
    | none =>
      rw [found] at ran
      obtain rfl := log_ok.mp ran
      exact rfl
    | some i =>
      rw [found] at ran
      dsimp only at ran
      rw [get_bind_ok] at ran
      obtain ⟨ok, w₁, asked, ran⟩ := bind_ok.mp ran
      obtain ⟨env, rfl⟩ := sendtoque_ok asked
      cases ok with
      | true =>
        rw [if_pos rfl, sockAt_bind_ok] at ran
        obtain ⟨⟨⟩, w₂, added, ran⟩ := bind_ok.mp ran
        obtain ⟨⟨⟩, w₃, counted, ran⟩ := bind_ok.mp ran
        obtain rfl := countUp_ok.mp counted
        obtain rfl := log_ok.mp ran
        have kept := added_buf (addPacketId_ok added)
        exact kept
      | false =>
        rw [if_neg Bool.false_ne_true] at ran
        obtain rfl := log_ok.mp ran
        exact rfl

theorem subscribeTopic_still (sock : Fin 64) (topic : Key) (reqQos : UInt8) (suback : Myvector UInt8) :
    Along Still (subscribeTopic sock topic reqQos suback) := by
  intro w a w' ran
  rw [subscribeTopic, sockAt_bind_ok] at ran
  obtain ⟨addr, client, attached, held, ran⟩ := deref_bind_ok ran
  rw [get_bind_ok] at ran
  obtain ⟨result, subscribed, ran⟩ := check_bind_ok ran
  rw [onHeap_bind_ok] at ran
  obtain ⟨⟨⟩, w₁, changed, ran⟩ := bind_ok.mp ran
  obtain ⟨addr, -, rfl⟩ := setClient_ok changed
  rw [log_bind_ok, onHeap_bind_ok] at ran
  obtain ⟨⟨⟩, w₂, sent, ran⟩ := bind_ok.mp ran
  obtain ⟨-, rfl⟩ := pure_ok.mp ran
  have kept := sendRetained_still _ _ _ _ _ _ sent
  exact kept

theorem unsubscribeTopic_still (sock : Fin 64) (topic : Key) : Along Still (unsubscribeTopic sock topic) := by
  intro w a w' ran
  rw [unsubscribeTopic, sockAt_bind_ok] at ran
  obtain ⟨addr, client, attached, held, ran⟩ := deref_bind_ok ran
  obtain ⟨left, unsubscribed, ran⟩ := check_bind_ok ran
  obtain ⟨⟨⟩, w₁, changed, ran⟩ := bind_ok.mp ran
  obtain ⟨addr, -, rfl⟩ := setClient_ok changed
  obtain rfl := log_ok.mp ran
  exact rfl

/-! ### One topic comes to its end -/

theorem sendRetained_returns (sock : Fin 64) (topic : Key) (reqQos : UInt8) (w : World) :
    (∃ w', sendRetained sock topic reqQos w = .ok ((), w')) ↔ ∃ kept, w.retainedSubMsg.get topic = .ok kept := by
  constructor
  · rintro ⟨w', ran⟩
    rw [sendRetained, get_bind_ok] at ran
    obtain ⟨kept, found, -⟩ := check_bind_ok ran
    exact ⟨kept, found⟩
  · rintro ⟨kept, found⟩
    cases kept with
    | none =>
      refine ⟨w.log (.sought sock topic none false), ?_⟩
      rw [sendRetained, get_bind_ok, found]
      rfl
    | some packetId =>
      cases stored : w.publishMsgStore.get packetId with
      | none =>
        refine ⟨w.log (.sought sock topic none false), ?_⟩
        rw [sendRetained, get_bind_ok, found]
        refine bind_ok.mpr ⟨some packetId, w, rfl, ?_⟩
        dsimp only
        rw [storeGet_bind_ok, stored]
        rfl
      | some i =>
        let asked : World := { w with
          env := { w.env with sends := w.env.sends.tail }
          trace := .queued ⟨sock, .write⟩ (w.env.sends.headD true) :: w.trace }
        let node := w.nodeAt i
        let qos := if reqQos < node.qos then reqQos else node.qos
        let item : PackidStateItem :=
          ⟨packetId, .sendpublish, qos, false, { conn := (w.socks sock).tls, frame := node.data, topic }⟩
        obtain ⟨w₁, added, -⟩ := FanOut.addPacketId_run asked sock item
        refine ⟨if w.env.sends.headD true then (w₁.countUp i).log (.sought sock topic (some node) true)
          else asked.log (.sought sock topic (some node) false), ?_⟩
        rw [sendRetained, get_bind_ok, found]
        refine bind_ok.mpr ⟨some packetId, w, rfl, ?_⟩
        dsimp only
        rw [storeGet_bind_ok, stored]
        dsimp only
        rw [get_bind_ok]
        refine bind_ok.mpr ⟨w.env.sends.headD true, asked, rfl, ?_⟩
        cases w.env.sends.headD true with
        | false => rfl
        | true =>
          rw [if_pos rfl, sockAt_bind_ok]
          exact bind_ok.mpr ⟨_, w₁, added, bind_ok.mpr ⟨⟨⟩, w₁.countUp i, countUp_ok.mpr rfl, rfl⟩⟩

/-- The QoS that a SUBSCRIBE is taken to ask for. -/
def askedQos (reqQos : UInt8) : UInt8 := if reqQos > 2 then 2 else reqQos

/-- `add_sub` comes to its end on the client's tree, and there is a table to
look a retained message up in. -/
def Subscribes (sock : Fin 64) (entry : List UInt8 × UInt8) (w : World) : Prop :=
  (∃ addr client, (w.socks sock).client = some addr ∧ w.clientAt addr = some client ∧
    ∃ result, client.subscribe w.env.fuel entry.1 (askedQos entry.2) w.env.heap = .ok result) ∧
  ∃ kept, w.retainedSubMsg.get entry.1 = .ok kept

/-- `delete_sub` comes to its end on the client's tree. -/
def Unsubscribes (sock : Fin 64) (topic : List UInt8) (w : World) : Prop :=
  ∃ addr client, (w.socks sock).client = some addr ∧ w.clientAt addr = some client ∧
    ∃ left, client.unsubscribe topic = .ok left

theorem deref_run {addr : Nat} {client : Client} {f : Client → Worker α} {a : α}
    (held : w.clientAt addr = some client) (ran : f client w = .ok (a, w')) :
    (deref (some addr) >>= f) w = .ok (a, w') :=
  bind_ok.mpr ⟨client, w, deref_held held, ran⟩

theorem subscribeTopic_returns (sock : Fin 64) (entry : List UInt8 × UInt8) (suback : Myvector UInt8) (w : World) :
    (∃ suback' w', subscribeTopic sock entry.1 entry.2 suback w = .ok (suback', w')) ↔
      Subscribes sock entry w := by
  obtain ⟨topic, reqQos⟩ := entry
  constructor
  · rintro ⟨suback', w', ran⟩
    rw [subscribeTopic, sockAt_bind_ok] at ran
    obtain ⟨addr, client, attached, held, ran⟩ := deref_bind_ok ran
    rw [get_bind_ok] at ran
    obtain ⟨result, subscribed, ran⟩ := check_bind_ok ran
    rw [onHeap_bind_ok] at ran
    obtain ⟨⟨⟩, w₁, changed, ran⟩ := bind_ok.mp ran
    obtain ⟨_, -, rfl⟩ := setClient_ok changed
    rw [log_bind_ok, onHeap_bind_ok] at ran
    obtain ⟨⟨⟩, w₂, sent, -⟩ := bind_ok.mp ran
    obtain ⟨kept, found⟩ := (sendRetained_returns sock topic _ _).mp ⟨w₂, sent⟩
    exact ⟨⟨addr, client, attached, held, result, subscribed⟩, kept, found⟩
  · rintro ⟨⟨addr, client, attached, held, result, subscribed⟩, kept, found⟩
    let left := (withHeap w result.2.2).setClient addr ({ · with subscriptions := result.2.1.subscriptions })
    let told := left.log (.resubscribed (w.socks sock).clientid result.2.1.subscriptions)
    let grown := suback.pushBack result.1 told.env.heap
    obtain ⟨w', sent⟩ := (sendRetained_returns sock topic (askedQos reqQos) (withHeap told grown.2)).mpr ⟨kept, found⟩
    refine ⟨grown.1, w', ?_⟩
    rw [subscribeTopic, sockAt_bind_ok, attached]
    refine deref_run held ?_
    rw [get_bind_ok]
    refine bind_ok.mpr ⟨result, w, check_ok.mpr ⟨subscribed, rfl⟩, ?_⟩
    rw [onHeap_bind_ok]
    refine bind_ok.mpr ⟨⟨⟩, left, rfl, ?_⟩
    rw [log_bind_ok, onHeap_bind_ok]
    exact bind_ok.mpr ⟨⟨⟩, w', sent, rfl⟩

theorem unsubscribeTopic_returns (sock : Fin 64) (topic : List UInt8) (w : World) :
    (∃ u w', unsubscribeTopic sock topic w = .ok (u, w')) ↔ Unsubscribes sock topic w := by
  constructor
  · rintro ⟨u, w', ran⟩
    rw [unsubscribeTopic, sockAt_bind_ok] at ran
    obtain ⟨addr, client, attached, held, ran⟩ := deref_bind_ok ran
    obtain ⟨left, unsubscribed, -⟩ := check_bind_ok ran
    exact ⟨addr, client, attached, held, left, unsubscribed⟩
  · rintro ⟨addr, client, attached, held, left, unsubscribed⟩
    refine ⟨⟨⟩, (w.setClient addr ({ · with subscriptions := left.subscriptions })).log
      (.resubscribed (w.socks sock).clientid left.subscriptions), ?_⟩
    rw [unsubscribeTopic, sockAt_bind_ok, attached]
    refine deref_run held ?_
    exact bind_ok.mpr ⟨left, w, check_ok.mpr ⟨unsubscribed, rfl⟩, bind_ok.mpr ⟨⟨⟩, _, rfl, rfl⟩⟩

/-! ### Loops over a payload -/

/-- The loop takes one turn for each entry, in order and each at its own bytes,
with the bytes that are left as the length, and stops behind the last. -/
def Walks (loop : Nat → Nat → UInt16 → σ → Worker σ) (step : F → σ → Worker σ) (encode : F → List UInt8) :
    List F → Nat → Nat → σ → World → Prop
  | [], turns, pos, s, w => loop turns pos 0 s w = .ok (s, w)
  | f :: rest, turns, pos, s, w =>
    loop turns pos (.ofNat ((f :: rest).flatMap encode).length) s w =
        (step f s >>= loop (turns - 1) (pos + (encode f).length) (.ofNat (rest.flatMap encode).length)) w ∧
      ∀ s' w', step f s w = .ok (s', w') →
        Walks loop step encode rest (turns - 1) (pos + (encode f).length) s' w'

/-- Every entry finds a state in which its turn comes to its end. -/
def Ready (ready : F → World → Prop) (step : F → σ → Worker σ) : List F → σ → World → Prop
  | [], _, _ => True
  | f :: rest, s, w => ready f w ∧ ∀ s' w', step f s w = .ok (s', w') → Ready ready step rest s' w'

/-- What a turn of such a loop does, with any length but 0. -/
structure PayloadLoop (loop : Nat → Nat → UInt16 → σ → Worker σ) (step : F → σ → Worker σ)
    (encode : F → List UInt8) (ready : F → World → Prop) : Prop where
  still : ∀ f s, Along Still (step f s)
  returns : ∀ f s w, (∃ s' w', step f s w = .ok (s', w')) ↔ ready f w
  some : ∀ f, 0 < (encode f).length
  spent : ∀ pos len s w, loop 0 pos len s w = .error .outOfBounds
  stop : ∀ turns pos s w, loop (turns + 1) pos 0 s w = .ok (s, w)
  takes : ∀ f turns pos len s (w : World), Holds w.buf pos (encode f) → (encode f).length < 65536 → len ≠ 0 →
    loop (turns + 1) pos len s w =
      (step f s >>= loop turns (pos + (encode f).length) (len - .ofNat (encode f).length)) w
  back : ∀ turns pos len s (w : World) rest s' w', Left w.buf pos rest → len ≠ 0 →
    loop (turns + 1) pos len s w = .ok (s', w') → ∃ f behind, rest = encode f ++ behind

theorem size_pos {bytes : List UInt8} (some : bytes ≠ []) (short : bytes.length < 65536) :
    UInt16.ofNat bytes.length ≠ 0 := by
  have positive := List.length_pos_of_ne_nil some
  rw [Ne, ← UInt16.toNat_inj, word_length short, UInt16.toNat_zero]
  omega

theorem length_le_flatMap {encode : F → List UInt8} (some : ∀ f, 0 < (encode f).length) (entries : List F) :
    entries.length ≤ (entries.flatMap encode).length := by
  induction entries with
  | nil => exact Nat.zero_le _
  | cons f rest ih =>
    have positive := some f
    rw [List.length_cons, List.flatMap_cons, List.length_append]
    omega

section Loops
variable {loop : Nat → Nat → UInt16 → σ → Worker σ} {step : F → σ → Worker σ} {encode : F → List UInt8}
  {ready : F → World → Prop}

theorem Left.behind {first : List UInt8} (left : Left w.buf pos (first ++ rest)) :
    Left w.buf (pos + first.length) rest := by
  have inside : first.length ≤ (first ++ rest).length := by simp
  have dropped := left.drop inside
  rwa [List.drop_left] at dropped

/-- A turn whose length is that of what is left. -/
theorem PayloadLoop.turn (laws : PayloadLoop loop step encode ready) (f : F) (rest : List UInt8) (turns pos : Nat)
    (s : σ) (w : World) (holds : Holds w.buf pos (encode f ++ rest)) (short : (encode f ++ rest).length < 65536) :
    loop (turns + 1) pos (.ofNat (encode f ++ rest).length) s w =
      (step f s >>= loop turns (pos + (encode f).length) (.ofNat rest.length)) w := by
  have some := laws.some f
  have left : UInt16.ofNat (encode f ++ rest).length - .ofNat (encode f).length = .ofNat rest.length := by
    rw [List.length_append, UInt16.ofNat_add]
    grind
  rw [List.length_append] at short
  rw [← left]
  refine laws.takes f turns pos _ s w holds.left (by omega) (size_pos ?_ (by rw [List.length_append]; omega))
  intro none
  rw [(List.append_eq_nil_iff.mp none).1] at some
  exact absurd some (Nat.lt_irrefl 0)

/-- The loop walks through the entries of a payload. -/
theorem PayloadLoop.walks (laws : PayloadLoop loop step encode ready) (entries : List F) {s : σ}
    (holds : Holds w.buf pos (entries.flatMap encode)) (enough : entries.length < turns)
    (short : (entries.flatMap encode).length < 65536) : Walks loop step encode entries turns pos s w := by
  induction entries generalizing turns pos s w with
  | nil =>
    cases turns with
    | zero => exact absurd enough (Nat.not_lt_zero _)
    | succ turns => exact laws.stop turns pos s w
  | cons f rest ih =>
    cases turns with
    | zero => exact absurd enough (Nat.not_lt_zero _)
    | succ turns =>
      refine ⟨laws.turn f _ turns pos s w holds short, fun s' w' ran => ?_⟩
      refine ih ?_ (Nat.lt_of_succ_lt_succ enough) ?_
      · rw [show w'.buf = w.buf from laws.still f s w s' w' ran]
        exact holds.right
      · rw [List.flatMap_cons, List.length_append] at short
        omega

/-- A loop that walks through its entries comes to its end if each of them does. -/
theorem PayloadLoop.ends_iff (laws : PayloadLoop loop step encode ready) {entries : List F} {s : σ}
    (walks : Walks loop step encode entries turns pos s w) :
    (∃ s' w', loop turns pos (.ofNat (entries.flatMap encode).length) s w = .ok (s', w')) ↔
      Ready ready step entries s w := by
  induction entries generalizing turns pos s w with
  | nil => exact iff_of_true ⟨s, w, walks⟩ trivial
  | cons f rest ih =>
    obtain ⟨turn, later⟩ := walks
    rw [turn]
    constructor
    · rintro ⟨s', w', ran⟩
      obtain ⟨s₁, w₁, stepped, ran⟩ := bind_ok.mp ran
      refine ⟨(laws.returns f s w).mp ⟨s₁, w₁, stepped⟩, fun s₂ w₂ same => ?_⟩
      obtain ⟨rfl, rfl⟩ := Prod.mk.inj (Except.ok.inj (stepped.symm.trans same))
      exact (ih (later s₁ w₁ stepped)).mp ⟨s', w', ran⟩
    · rintro ⟨first, others⟩
      obtain ⟨s₁, w₁, stepped⟩ := (laws.returns f s w).mpr first
      obtain ⟨s', w', ran⟩ := (ih (later s₁ w₁ stepped)).mpr (others s₁ w₁ stepped)
      exact ⟨s', w', bind_ok.mpr ⟨s₁, w₁, stepped, ran⟩⟩

/-- A loop that ends inside the buffer has walked through entries, whose length
is the one it began with. -/
theorem PayloadLoop.taken (laws : PayloadLoop loop step encode ready) {s s' : σ} {len : UInt16}
    (left : Left w.buf pos rest) (short : rest.length < 65536) (ran : loop turns pos len s w = .ok (s', w')) :
    ∃ entries : List F, entries.flatMap encode <+: rest ∧ len = .ofNat (entries.flatMap encode).length := by
  induction turns generalizing pos len rest s w with
  | zero =>
    rw [laws.spent] at ran
    cases ran
  | succ turns ih =>
    by_cases none : len = 0
    · exact ⟨[], List.nil_prefix, none⟩
    · obtain ⟨f, behind, rfl⟩ := laws.back turns pos len s w rest s' w' left none ran
      rw [List.length_append] at short
      rw [laws.takes f turns pos len s w left.holds.left (by omega) none] at ran
      obtain ⟨s₁, w₁, stepped, ran⟩ := bind_ok.mp ran
      have kept : w₁.buf = w.buf := laws.still f s w s₁ w₁ stepped
      obtain ⟨entries, inside, length⟩ := ih (kept ▸ Left.behind left) (by omega) ran
      refine ⟨f :: entries, (List.prefix_append_right_inj _).mpr inside, ?_⟩
      rw [List.flatMap_cons, List.length_append, UInt16.ofNat_add, ← length]
      grind

/-- A loop whose length is that of all that is left has walked through it. -/
theorem PayloadLoop.entries (laws : PayloadLoop loop step encode ready) {s s' : σ} (left : Left w.buf pos rest)
    (short : rest.length < 65536) (ran : loop turns pos (.ofNat rest.length) s w = .ok (s', w')) :
    ∃ entries : List F, rest = entries.flatMap encode := by
  obtain ⟨entries, ⟨behind, rfl⟩, length⟩ := laws.taken left short ran
  refine ⟨entries, ?_⟩
  rw [List.length_append] at short
  have same := congrArg UInt16.toNat length
  rw [word_length (by rw [List.length_append]; omega), word_length (by omega), List.length_append] at same
  rw [List.eq_nil_of_length_eq_zero (l := behind) (by omega), List.append_nil]

/-- On the buffer of the worker a loop comes to its end for a list of entries of
this length, each of which does. -/
theorem PayloadLoop.completes_iff (laws : PayloadLoop loop step encode ready) {s : σ} {len : UInt16}
    (left : Left w.buf pos rest) (short : rest.length < buffSize) :
    (∃ s' w', loop buffSize pos len s w = .ok (s', w')) ↔ ∃ entries : List F, entries.flatMap encode <+: rest ∧
      len = .ofNat (entries.flatMap encode).length ∧ Ready ready step entries s w := by
  have buffer : buffSize = 1024 := rfl
  have walks (entries : List F) (inside : entries.flatMap encode <+: rest) :
      Walks loop step encode entries buffSize pos s w := by
    obtain ⟨behind, rfl⟩ := inside
    have few := length_le_flatMap laws.some entries
    rw [List.length_append] at short
    exact laws.walks entries left.holds.left (by omega) (by omega)
  constructor
  · rintro ⟨s', w', ran⟩
    obtain ⟨entries, inside, rfl⟩ := laws.taken left (by omega) ran
    exact ⟨entries, inside, rfl, (laws.ends_iff (walks entries inside)).mp ⟨s', w', ran⟩⟩
  · rintro ⟨entries, inside, rfl, ready⟩
    exact (laws.ends_iff (walks entries inside)).mpr ready

end Loops

/-! ### The two loops -/

/-- A topic filter of a SUBSCRIBE with the QoS asked for. -/
def encodeSubscription (entry : List UInt8 × UInt8) : List UInt8 := field entry.1 ++ [entry.2]

/-- Two bytes are those of the length they stand for. -/
theorem field_of_word {high low : UInt8} {topic : List UInt8}
    (length : topic.length = 256 * high.toNat + low.toNat) : field topic = high :: low :: topic := by
  have small := low.toNat_lt
  have upper : UInt8.ofNat (topic.length / 256) = high := by
    rw [← UInt8.toNat_inj, UInt8.toNat_ofNat', length]
    have bound := high.toNat_lt
    omega
  have lower : UInt8.ofNat topic.length = low := by
    rw [← UInt8.toNat_inj, UInt8.toNat_ofNat', length]
    omega
  rw [field, upper, lower]

theorem ntohsAt_ok {len : UInt16} (left : Left w.buf pos rest) (ran : ntohsAt pos w = .ok (len, w₁)) :
    w₁ = w ∧ ∃ high low behind, rest = high :: low :: behind ∧
      len.toNat = 256 * high.toNat + low.toNat ∧ Left w.buf (pos + 2) behind := by
  match rest, left with
  | [], left =>
    rw [ntohsAt, bind_of_error (byteAt_cut left)] at ran
    cases ran
  | [high], left =>
    rw [ntohsAt, bind_of_ok (byteAt_holds left.holds), bind_of_error (byteAt_cut left.tail)] at ran
    cases ran
  | high :: low :: behind, left =>
    rw [ntohsAt_holds left.holds] at ran
    obtain ⟨rfl, rfl⟩ := Prod.mk.inj (Except.ok.inj ran)
    exact ⟨rfl, high, low, behind, rfl, word_toNat high low, left.tail.tail⟩

theorem rangeAt_ok {len : Nat} {bytes : List UInt8} (left : Left w.buf pos rest)
    (ran : rangeAt pos len w = .ok (bytes, w₁)) :
    w₁ = w ∧ len ≤ rest.length ∧ bytes = rest.take len := by
  by_cases inside : len ≤ rest.length
  · rw [rangeAt_left left inside] at ran
    obtain ⟨rfl, rfl⟩ := Prod.mk.inj (Except.ok.inj ran)
    exact ⟨rfl, inside, rfl⟩
  · rw [rangeAt_cut left (Nat.lt_of_not_le inside)] at ran
    cases ran

/-- A string that is read inside the buffer. -/
theorem read_field {topicLen : UInt16} {topic : List UInt8} (left : Left w.buf pos rest)
    (length : ntohsAt pos w = .ok (topicLen, w₁)) (read : rangeAt (pos + 2) topicLen.toNat w₁ = .ok (topic, w')) :
    w' = w ∧ ∃ behind, rest = field topic ++ behind ∧ topic.length = topicLen.toNat := by
  obtain ⟨rfl, high, low, text, rfl, number, left⟩ := ntohsAt_ok left length
  obtain ⟨rfl, inside, rfl⟩ := rangeAt_ok left read
  have size := List.length_take_of_le inside
  refine ⟨rfl, text.drop topicLen.toNat, ?_, size⟩
  rw [field_of_word (size.trans number)]
  simp

theorem length_subscription (entry : List UInt8 × UInt8) :
    (encodeSubscription entry).length = 2 + entry.1.length + 1 := by
  rw [encodeSubscription, List.length_append, length_field, List.length_singleton]

theorem subscribe_payload (sock : Fin 64) :
    PayloadLoop (subscribeLoop sock) (fun entry => subscribeTopic sock entry.1 entry.2) encodeSubscription
      (Subscribes sock) where
  still entry := subscribeTopic_still sock entry.1 entry.2
  returns := subscribeTopic_returns sock
  some entry := by
    rw [length_subscription]
    exact Nat.succ_pos _
  spent _ _ _ _ := rfl
  stop _ _ _ _ := rfl
  takes := by
    intro entry turns pos len s w holds short some
    obtain ⟨topic, reqQos⟩ := entry
    rw [length_subscription] at short ⊢
    dsimp only at short ⊢
    have small : topic.length < 65536 := by omega
    have left : len - (.ofNat topic.length + 2) - 1 = len - .ofNat (2 + topic.length + 1) := by
      have one : UInt16.ofNat 1 = 1 := rfl
      have two : UInt16.ofNat 2 = 2 := rfl
      rw [UInt16.ofNat_add, UInt16.ofNat_add, one, two]
      grind
    rw [subscribeLoop, if_neg some, bind_of_ok (ntohsAt_field holds small), word_length small,
      bind_of_ok (rangeAt_holds holds.text), bind_of_ok (byteAt_holds holds.behind), left, Nat.add_assoc pos,
      Nat.add_assoc pos]
  back := by
    intro turns pos len s w rest s' w' left some ran
    rw [subscribeLoop, if_neg some] at ran
    obtain ⟨topicLen, w₁, length, ran₁⟩ := bind_ok.mp ran
    obtain ⟨topic, w₂, read, ran₂⟩ := bind_ok.mp ran₁
    obtain ⟨reqQos, w₃, asked, -⟩ := bind_ok.mp ran₂
    obtain ⟨rfl, behind, rfl, size⟩ := read_field left length read
    cases behind with
    | nil =>
      have ends := Left.behind left
      rw [length_field, size, ← Nat.add_assoc] at ends
      rw [byteAt_cut ends] at asked
      cases asked
    | cons byte behind =>
      refine ⟨(topic, byte), behind, ?_⟩
      rw [encodeSubscription, List.append_assoc]
      rfl

theorem unsubscribe_payload (sock : Fin 64) :
    PayloadLoop (fun turns pos len (_ : Unit) => unsubscribeLoop sock turns pos len)
      (fun topic _ => unsubscribeTopic sock topic) field (Unsubscribes sock) where
  still topic _ := unsubscribeTopic_still sock topic
  returns topic _ := unsubscribeTopic_returns sock topic
  some topic := by
    rw [length_field]
    omega
  spent _ _ _ _ := rfl
  stop _ _ _ _ := rfl
  takes := by
    intro topic turns pos len s w holds short some
    rw [length_field] at short ⊢
    have small : topic.length < 65536 := by omega
    have left : len - (.ofNat topic.length + 2) = len - .ofNat (2 + topic.length) := by
      have two : UInt16.ofNat 2 = 2 := rfl
      rw [UInt16.ofNat_add, two]
      grind
    have whole : Holds w.buf pos (field topic ++ []) := by rwa [List.append_nil]
    rw [unsubscribeLoop, if_neg some, bind_of_ok (ntohsAt_field whole small), word_length small,
      bind_of_ok (rangeAt_holds whole.text), left, Nat.add_assoc pos]
  back := by
    intro turns pos len s w rest s' w' left some ran
    rw [unsubscribeLoop, if_neg some] at ran
    obtain ⟨topicLen, w₁, length, ran₁⟩ := bind_ok.mp ran
    obtain ⟨topic, w₂, read, -⟩ := bind_ok.mp ran₁
    obtain ⟨-, behind, same, -⟩ := read_field left length read
    exact ⟨topic, behind, same⟩

/-! ### The two packets -/

/-- The header that is read for a packet. -/
structure Describes (header : Header) (packet : Packet) : Prop where
  length : header.packetLength.toNat = packet.encoded.length
  curPos : header.curPos = 1 + packet.length.length
  additional : header.additionalPacketLen.toNat = header.curPos

/-- The event drops the connection, on a buffer that ends with the packet. -/
def Drops (sock : Fin 64) (event : Worker Unit) (packet : Packet) (w : World) : Prop :=
  ∃ w', event { w with buf := packet.encoded } = .ok ((), w') ∧ (w'.socks sock).phs = .uninit

/-- The body is a packet id and the encoding of a list of filters. -/
def Lists (encode : F → List UInt8) (packet : Packet) (msb lsb : UInt8) (entries : List F) : Prop :=
  packet.body = msb :: lsb :: entries.flatMap encode

/-- The loop over a payload that is a list of filters, from the state it begins
in: it walks through the list, on any buffer that begins with the packet, and
comes to its end. -/
def Processes (loop : Nat → Nat → UInt16 → σ → Worker σ) (step : F → σ → Worker σ) (encode : F → List UInt8)
    (packet : Packet) (header : Header) (s : σ) (w : World) (entries : List F) : Prop :=
  header.packetLength - header.additionalPacketLen.toUInt16 - 2 = .ofNat (entries.flatMap encode).length ∧
    (∀ (w : World) (s : σ), packet.encoded <+: w.buf →
      Walks loop step encode entries buffSize (header.curPos + 2) s w) ∧
    ∃ s' w', loop buffSize (header.curPos + 2) (.ofNat (entries.flatMap encode).length) s w = .ok (s', w')

/-- What is asked of an event whose loop begins in the state `begins`, `none`
where it does not come to the loop. A list of filters is processed; for any
other payload, and where the loop is not reached, the connection is dropped
inside the packet. -/
def Exact (sock : Fin 64) (event : Worker Unit) (loop : Nat → Nat → UInt16 → σ → Worker σ)
    (step : F → σ → Worker σ) (encode : F → List UInt8) (start : UInt8 → UInt8 → σ) (begins : Option World)
    (packet : Packet) (header : Header) (w : World) : Prop :=
  (∀ w₁ msb lsb entries, begins = some w₁ → Lists encode packet msb lsb entries →
    (∃ answer, event w = (loop buffSize (header.curPos + 2)
      (header.packetLength - header.additionalPacketLen.toUInt16 - 2) (start msb lsb) >>= answer) w₁) ∧
    Processes loop step encode packet header (start msb lsb) w₁ entries) ∧
  (begins = none ∨ (∀ msb lsb entries, ¬ Lists encode packet msb lsb entries) → Drops sock event packet w)

/-- The condition for it: a list of filters each of which comes to its end, or
a connection that is dropped before the loop. -/
def Taken (ready : F → World → Prop) (step : F → σ → Worker σ) (encode : F → List UInt8)
    (start : UInt8 → UInt8 → σ) (begins : Option World) (packet : Packet) (drops : Prop) : Prop :=
  (∃ w₁ msb lsb entries, begins = some w₁ ∧ Lists encode packet msb lsb entries ∧
    Ready ready step entries (start msb lsb) w₁) ∨ begins = none ∧ drops

section Packets
variable {loop : Nat → Nat → UInt16 → σ → Worker σ} {step : F → σ → Worker σ} {encode : F → List UInt8}
  {ready : F → World → Prop} {packet : Packet} {header : Header} {msb lsb : UInt8} {payload : List UInt8}

theorem Describes.left_over (describes : Describes header packet) (body : packet.body = msb :: lsb :: payload) :
    header.packetLength - header.additionalPacketLen.toUInt16 - 2 = .ofNat payload.length := by
  have fits := packet.fits
  have size := packet.size
  have length := describes.length
  have additional := describes.additional
  have place := describes.curPos
  have buffer : buffSize = 1024 := rfl
  have two : (2 : UInt16).toNat = 2 := rfl
  rw [body, List.length_cons, List.length_cons] at size fits
  rw [← UInt16.toNat_inj, word_length (by omega), UInt16.toNat_sub, UInt16.toNat_sub, UInt8.toNat_toUInt16, two]
  omega

theorem Describes.left (describes : Describes header packet) :
    Left packet.encoded header.curPos packet.body := by
  refine ⟨packet.head :: packet.length, rfl, ?_⟩
  rw [describes.curPos, List.length_cons, Nat.add_comm]

/-- A payload that is a list of filters is walked through. -/
theorem PayloadLoop.exact (laws : PayloadLoop loop step encode ready)
    (describes : Describes header packet) {entries : List F}
    (body : packet.body = msb :: lsb :: entries.flatMap encode) {s : σ} (read : packet.encoded <+: w.buf) :
    Walks loop step encode entries buffSize (header.curPos + 2) s w := by
  have fits := packet.fits
  have buffer : buffSize = 1024 := rfl
  have few := length_le_flatMap laws.some entries
  rw [body, List.length_cons, List.length_cons] at fits
  refine laws.walks entries ?_ (by omega) (by omega)
  obtain ⟨back, same⟩ := read
  refine ⟨packet.head :: (packet.length ++ [msb, lsb]), back, ?_, ?_⟩
  · rw [← same, Packet.encoded, body]
    simp
  · rw [describes.curPos, List.length_cons, List.length_append, List.length_cons, List.length_singleton]
    omega

/-- Inside a packet the reads of the packet id and the loop complete only for a
list of filters. -/
theorem PayloadLoop.refuses (laws : PayloadLoop loop step encode ready) (describes : Describes header packet)
    (other : ∀ (msb lsb : UInt8) (entries : List F), packet.body ≠ msb :: lsb :: entries.flatMap encode)
    (buf : w.buf = packet.encoded) {s : UInt8 → UInt8 → σ} {g : UInt8 → UInt8 → σ → Worker Unit} : ¬ (do
      let msb ← byteAt header.curPos
      let lsb ← byteAt (header.curPos + 1)
      let s ← loop buffSize (header.curPos + 2)
        (header.packetLength - header.additionalPacketLen.toUInt16 - 2) (s msb lsb)
      g msb lsb s) w = .ok ((), w') := by
  intro ran
  have left : Left w.buf header.curPos packet.body := buf ▸ describes.left
  have fits := packet.fits
  have buffer : buffSize = 1024 := rfl
  match same : packet.body with
  | [] =>
    rw [same] at left
    rw [bind_of_error (byteAt_cut left)] at ran
    cases ran
  | [msb] =>
    rw [same] at left
    rw [bind_of_ok (byteAt_holds left.holds), bind_of_error (byteAt_cut left.tail)] at ran
    cases ran
  | msb :: lsb :: payload =>
    rw [same] at left
    rw [bind_of_ok (byteAt_holds left.holds), bind_of_ok (byteAt_holds left.tail.holds),
      describes.left_over same] at ran
    rw [same, List.length_cons, List.length_cons] at fits
    obtain ⟨s', w₁, looped, -⟩ := bind_ok.mp ran
    obtain ⟨entries, rfl⟩ := laws.entries left.tail.tail (by omega) looped
    exact other msb lsb entries same

end Packets

variable {sock : Fin 64} {packet : Packet} {header : Header}

theorem head_holds (buf : w.buf = packet.encoded) : Holds w.buf 0 [packet.head] :=
  ⟨[], packet.length ++ packet.body, buf, rfl⟩

/-- The allocation for a SUBACK. -/
theorem reserve_ok (memory : w.env.heap.alloc.1 = true) :
    onHeap (fun heap =>
      let result := ({} : Myvector UInt8).reserve 5 heap
      ((result.1, result.2.1), result.2.2)) w = .ok ((true, ⟨[], 5⟩), withHeap w w.env.heap.alloc.2) := by
  change Except.ok ((_, _), _) = _
  simp only [Myvector.reserve, memory, if_true]
  rfl

theorem reserve_failed (memory : w.env.heap.alloc.1 = false) :
    onHeap (fun heap =>
      let result := ({} : Myvector UInt8).reserve 5 heap
      ((result.1, result.2.1), result.2.2)) w = .ok ((false, {}), withHeap w w.env.heap.alloc.2) := by
  change Except.ok ((_, _), _) = _
  simp only [Myvector.reserve, memory, Bool.false_eq_true, if_false]
  rfl

/-- With memory for the SUBACK, a payload that is no list is not dropped. -/
theorem subscribe_refuses (describes : Describes header packet)
    (reserved : packet.head &&& 0x0F = subscribeReserved) (memory : w.env.heap.alloc.1 = true)
    (other : ∀ (msb lsb : UInt8) (entries : List (List UInt8 × UInt8)),
      packet.body ≠ msb :: lsb :: entries.flatMap encodeSubscription) :
    ¬ Drops sock (subscribeEvent sock header) packet w := by
  rintro ⟨w', ran, -⟩
  rw [subscribeEvent, bind_of_ok (byteAt_holds (head_holds rfl)), if_neg (not_not_intro reserved),
    bind_of_ok (reserve_ok (w := { w with buf := packet.encoded }) memory)] at ran
  exact (subscribe_payload sock).refuses describes other rfl ran

/-- Without memory for the SUBACK nothing of the payload is read. -/
theorem subscribe_drops (reserved : packet.head &&& 0x0F = subscribeReserved)
    (memory : w.env.heap.alloc.1 = false) :
    subscribeEvent sock header { w with buf := packet.encoded } =
      dropConn sock true (withHeap { w with buf := packet.encoded } w.env.heap.alloc.2) := by
  rw [subscribeEvent, bind_of_ok (byteAt_holds (head_holds rfl)), if_neg (not_not_intro reserved),
    bind_of_ok (reserve_failed (w := { w with buf := packet.encoded }) memory)]
  rfl

theorem unsubscribe_refuses (describes : Describes header packet)
    (reserved : packet.head &&& 0x0F = subscribeReserved) (other : ∀ (msb lsb : UInt8) (topics : List (List UInt8)),
      packet.body ≠ msb :: lsb :: topics.flatMap field) :
    ¬ Drops sock (unsubscribeEvent sock header) packet w := by
  rintro ⟨w', ran, -⟩
  rw [unsubscribeEvent, bind_of_ok (byteAt_holds (head_holds rfl)), if_neg (not_not_intro reserved),
    pure_bind] at ran
  exact (unsubscribe_payload sock).refuses (s := fun _ _ => ()) describes other rfl ran

theorem dropConn_uninit {sendwill : Bool} {u : Unit} (ran : dropConn sock sendwill w = .ok (u, w')) :
    (w'.socks sock).phs = .uninit := by
  rw [dropConn, sockAt_bind_ok, log_bind_ok] at ran
  obtain ⟨ok, w₁, -, ran⟩ := bind_ok.mp ran
  rw [log_bind_ok, sockAt_bind_ok] at ran
  obtain ⟨⟨⟩, w₂, -, ran⟩ := bind_ok.mp ran
  rw [endSession, sockAt_bind_ok] at ran
  obtain ⟨⟨⟩, w₃, -, ran⟩ := bind_ok.mp ran
  obtain rfl := setSock_ok.mp ran
  rw [World.setSock_socks]

/-- What the event does where its payload is a list of filters. -/
structure Enters (event : Worker Unit) (loop : Nat → Nat → UInt16 → σ → Worker σ) (start : UInt8 → UInt8 → σ)
    (begins : Option World) (packet : Packet) (header : Header) (w : World) : Prop where
  received : ∀ w₁, begins = some w₁ → packet.encoded <+: w₁.buf
  reaches : ∀ w₁ msb lsb payload, begins = some w₁ → packet.body = msb :: lsb :: payload →
    ∃ answer, event w = (loop buffSize (header.curPos + 2)
      (header.packetLength - header.additionalPacketLen.toUInt16 - 2) (start msb lsb) >>= answer) w₁

/-- An event whose loop is one over its payload is exact for the payloads that
are taken. -/
theorem PayloadLoop.exact_iff {loop : Nat → Nat → UInt16 → σ → Worker σ} {step : F → σ → Worker σ}
    {encode : F → List UInt8} {ready : F → World → Prop} (laws : PayloadLoop loop step encode ready)
    {event : Worker Unit} {start : UInt8 → UInt8 → σ} {begins : Option World} {drops : Prop}
    (describes : Describes header packet)
    (enters : Enters event loop start begins packet header w)
    (passed : begins = none → (Drops sock event packet w ↔ drops))
    (refused : begins ≠ none → (∀ msb lsb entries, ¬ Lists encode packet msb lsb entries) →
      ¬ Drops sock event packet w) :
    Exact sock event loop step encode start begins packet header w ↔
      Taken ready step encode start begins packet drops := by
  have walks {msb lsb : UInt8} {entries : List F} (listed : Lists encode packet msb lsb entries) (w : World) (s : σ)
      (read : packet.encoded <+: w.buf) : Walks loop step encode entries buffSize (header.curPos + 2) s w :=
    laws.exact describes listed read
  constructor
  · rintro ⟨processed, dropped⟩
    cases reached : begins with
    | none => exact .inr ⟨rfl, (passed reached).mp (dropped (.inl reached))⟩
    | some w₁ =>
      have some_list : ∃ msb lsb entries, Lists encode packet msb lsb entries := by
        by_contra none
        have other : ∀ msb lsb entries, ¬ Lists encode packet msb lsb entries :=
          fun msb lsb entries listed => none ⟨msb, lsb, entries, listed⟩
        exact refused (by simp [reached]) other (dropped (.inr other))
      obtain ⟨msb, lsb, entries, listed⟩ := some_list
      obtain ⟨-, -, -, ends⟩ := processed w₁ msb lsb entries reached listed
      have ready := (laws.ends_iff (walks listed w₁ _ (enters.received w₁ reached))).mp ends
      exact .inl ⟨w₁, msb, lsb, entries, rfl, listed, ready⟩
  · rintro (⟨w₁, msb, lsb, entries, reached, listed, ready⟩ | ⟨missed, holds⟩)
    · refine ⟨fun w₂ msb' lsb' entries' same listed' => ?_, ?_⟩
      · obtain rfl := Option.some.inj (reached.symm.trans same)
        refine ⟨enters.reaches w₁ msb' lsb' _ reached listed', describes.left_over listed', walks listed', ?_⟩
        obtain ⟨rfl, behind⟩ := List.cons.inj (listed.symm.trans listed')
        obtain ⟨rfl, payload⟩ := List.cons.inj behind
        rw [← payload]
        exact (laws.ends_iff (walks listed w₁ _ (enters.received w₁ reached))).mpr ready
      · rintro (missed | other)
        · rw [missed] at reached
          cases reached
        · exact absurd listed (other msb lsb entries)
    · refine ⟨fun w₁ msb lsb entries reached => ?_, fun _ => (passed missed).mpr holds⟩
      rw [missed] at reached
      cases reached

/-- The state in which the loop of a SUBSCRIBE begins, where there is memory for
its SUBACK. -/
def subscribeBegins (w : World) : Option World :=
  if w.env.heap.alloc.1 then some (withHeap w w.env.heap.alloc.2) else none

/-- The SUBACK in front of its return codes. -/
def emptySuback (msb lsb : UInt8) : Myvector UInt8 := ⟨[0x90, 0, msb, lsb], 5⟩

theorem left_received (describes : Describes header packet) (received : packet.encoded <+: w.buf)
    {payload : List UInt8} {msb lsb : UInt8} (body : packet.body = msb :: lsb :: payload) :
    Holds w.buf 0 [packet.head] ∧ Holds w.buf header.curPos [msb] ∧ Holds w.buf (header.curPos + 1) [lsb] := by
  obtain ⟨back, same⟩ := received
  have place := describes.curPos
  refine ⟨⟨[], packet.length ++ packet.body ++ back, ?_, rfl⟩,
    ⟨packet.head :: packet.length, lsb :: payload ++ back, ?_, ?_⟩,
    ⟨packet.head :: packet.length ++ [msb], payload ++ back, ?_, ?_⟩⟩
  · rw [← same, Packet.encoded]
    simp
  · rw [← same, Packet.encoded, body]
    simp
  · rw [place, List.length_cons, Nat.add_comm]
  · rw [← same, Packet.encoded, body]
    simp
  · rw [place, List.length_append, List.length_cons, List.length_singleton]
    omega

/-- The packet id is read in front of the loop. -/
theorem read_id {msb lsb : UInt8} {first : UInt8 → UInt8 → Worker σ} {answer : UInt8 → UInt8 → σ → Worker Unit}
    (high : Holds w.buf pos [msb]) (low : Holds w.buf (pos + 1) [lsb]) : (do
      let msb ← byteAt pos
      let lsb ← byteAt (pos + 1)
      let s ← first msb lsb
      answer msb lsb s) w = (first msb lsb >>= answer msb lsb) w := by
  rw [bind_of_ok (byteAt_holds high), bind_of_ok (byteAt_holds low)]

theorem subscribe_enters (describes : Describes header packet) (received : packet.encoded <+: w.buf)
    (reserved : packet.head &&& 0x0F = subscribeReserved) :
    Enters (subscribeEvent sock header) (subscribeLoop sock) emptySuback (subscribeBegins w) packet header w where
  received := by
    intro w₁ begins
    unfold subscribeBegins at begins
    split at begins
    · obtain rfl := Option.some.inj begins
      exact received
    · cases begins
  reaches := by
    intro w₁ msb lsb payload begins body
    obtain ⟨first, high, low⟩ := left_received describes received body
    unfold subscribeBegins at begins
    split at begins
    · rename_i memory
      obtain rfl := Option.some.inj begins
      refine ⟨?answer, ?_⟩
      rotate_left
      rw [subscribeEvent, bind_of_ok (byteAt_holds first), if_neg (not_not_intro reserved),
        bind_of_ok (reserve_ok memory)]
      exact read_id (w := withHeap w w.env.heap.alloc.2) high low
    · cases begins

theorem unsubscribe_enters (describes : Describes header packet) (received : packet.encoded <+: w.buf)
    (reserved : packet.head &&& 0x0F = subscribeReserved) :
    Enters (unsubscribeEvent sock header) (fun turns pos len (_ : Unit) => unsubscribeLoop sock turns pos len)
      (fun _ _ => ()) (some w) packet header w where
  received := by
    intro w₁ begins
    obtain rfl := Option.some.inj begins
    exact received
  reaches := by
    intro w₁ msb lsb payload begins body
    obtain rfl := Option.some.inj begins
    obtain ⟨first, high, low⟩ := left_received describes received body
    refine ⟨?answer, ?_⟩
    rotate_left
    rw [unsubscribeEvent, bind_of_ok (byteAt_holds first), if_neg (not_not_intro reserved), pure_bind]
    exact read_id high low

/-- The loops are exact for lists of filters that the trees of subscriptions
return from, and for these only: a payload that is none is not dropped, and a
SUBSCRIBE is when its SUBACK gets no memory. -/
theorem payloads_exact_iff (sock : Fin 64) (packet : Packet) (header : Header) (w : World)
    (describes : Describes header packet) (reserved : packet.head &&& 0x0F = subscribeReserved)
    (received : packet.encoded <+: w.buf) :
    (Exact sock (subscribeEvent sock header) (subscribeLoop sock)
        (fun entry => subscribeTopic sock entry.1 entry.2) encodeSubscription emptySuback (subscribeBegins w)
        packet header w ↔
      Taken (Subscribes sock) (fun entry => subscribeTopic sock entry.1 entry.2) encodeSubscription emptySuback
        (subscribeBegins w) packet
        (∃ w', dropConn sock true (withHeap { w with buf := packet.encoded } w.env.heap.alloc.2) = .ok ((), w'))) ∧
    (Exact sock (unsubscribeEvent sock header) (fun turns pos len (_ : Unit) => unsubscribeLoop sock turns pos len)
        (fun topic _ => unsubscribeTopic sock topic) field (fun _ _ => ()) (some w) packet header w ↔
      Taken (Unsubscribes sock) (fun topic _ => unsubscribeTopic sock topic) field (fun _ _ => ()) (some w) packet
        False) := by
  constructor
  · refine (subscribe_payload sock).exact_iff describes
      (subscribe_enters describes received reserved) (fun missed => ?_) fun reached other => ?_
    · have memory : w.env.heap.alloc.1 = false := by simpa [subscribeBegins] using missed
      unfold Drops
      rw [subscribe_drops reserved memory]
      exact ⟨fun drops => drops.imp fun _ => And.left, fun ⟨w', ran⟩ => ⟨w', ran, dropConn_uninit ran⟩⟩
    · have memory : w.env.heap.alloc.1 = true := by simpa [subscribeBegins] using reached
      exact subscribe_refuses describes reserved memory other
  · refine (unsubscribe_payload sock).exact_iff describes
      (unsubscribe_enters describes received reserved) (fun missed => ?_) fun _ other => ?_
    · cases missed
    · exact unsubscribe_refuses describes reserved other

/-- A SUBSCRIBE for two topics. -/
def twoFilters : Packet :=
  ⟨0x82, [10], 0 :: 1 :: [([97], 1), ([98], 0)].flatMap encodeSubscription, by decide, by decide, rfl, by decide⟩

/-- The tests by which a run shows that a filter comes to its end. -/
def admits (sock : Fin 64) (entry : List UInt8 × UInt8) (w : World) : Bool :=
  ((w.socks sock).client.any fun addr => (w.clientAt addr).any fun client =>
    (client.subscribe w.env.fuel entry.1 (askedQos entry.2) w.env.heap).toOption.isSome) &&
  (w.retainedSubMsg.get entry.1).toOption.isSome

theorem subscribes_of_admits {sock : Fin 64} {entry : List UInt8 × UInt8} (admitted : admits sock entry w = true) :
    Subscribes sock entry w := by
  have ends {α : Type} {outcome : Outcome α} (some : outcome.toOption.isSome = true) : ∃ a, outcome = .ok a := by
    cases outcome with
    | ok a => exact ⟨a, rfl⟩
    | error kind => cases some
  rw [admits, Bool.and_eq_true, Option.any_eq_true] at admitted
  obtain ⟨⟨addr, attached, found⟩, kept⟩ := admitted
  obtain ⟨client, held, subscribed⟩ := (Option.any_eq_true _ _).mp found
  exact ⟨⟨addr, client, attached, held, ends subscribed⟩, ends kept⟩

/-- The worker after a CONNECT, with a packet in the buffer. -/
def withPacket (packet : Packet) (w : World) : World := { w with buf := packet.encoded, env := { fuel := 4 } }

theorem twoFilters_processed : ∃ w, twoFilters.encoded <+: w.buf ∧
    Exact 0 (subscribeEvent 0 ⟨12, 2, 2⟩) (subscribeLoop 0) (fun entry => subscribeTopic 0 entry.1 entry.2)
      encodeSubscription emptySuback (subscribeBegins w) twoFilters ⟨12, 2, 2⟩ w := by
  let tested (w₀ : World) : Bool :=
    let w := withPacket twoFilters w₀
    admits 0 ([97], 1) w &&
      (subscribeTopic 0 [97] 1 (emptySuback 0 1) w).toOption.all fun done => admits 0 ([98], 0) done.2
  obtain ⟨w₀, -, -, shown⟩ := reached_run .clean [accepting 0, reading 0 (connectPacket [97] 2)]
    tested (by decide +kernel)
  obtain ⟨first, second⟩ := (Bool.and_eq_true_iff).mp shown
  refine ⟨withPacket twoFilters w₀, List.prefix_rfl,
    (payloads_exact_iff 0 twoFilters ⟨12, 2, 2⟩ _ ⟨rfl, rfl, rfl⟩ rfl List.prefix_rfl).1.mpr (.inl ?_)⟩
  refine ⟨withPacket twoFilters w₀, 0, 1, [([97], 1), ([98], 0)], rfl, rfl, subscribes_of_admits first,
    fun s' w' ran => ⟨subscribes_of_admits ?_, fun _ _ _ => trivial⟩⟩
  rw [show subscribeTopic 0 [97] 1 (emptySuback 0 1) (withPacket twoFilters w₀) = _ from ran] at second
  exact second

/-- A payload of one byte. -/
def cutShort : Packet := ⟨0x82, [3], [0, 1, 0], by decide, by decide, rfl, by decide⟩

theorem cutShort_described : Describes ⟨5, 2, 2⟩ cutShort := ⟨rfl, rfl, rfl⟩

/-- It is no list of filters, and the connection is not dropped. -/
theorem cutShort_not_exact : ∃ w, cutShort.encoded <+: w.buf ∧
    ¬ Exact 0 (subscribeEvent 0 ⟨5, 2, 2⟩) (subscribeLoop 0) (fun entry => subscribeTopic 0 entry.1 entry.2)
      encodeSubscription emptySuback (subscribeBegins w) cutShort ⟨5, 2, 2⟩ w := by
  have other (msb lsb : UInt8) (entries : List (List UInt8 × UInt8)) :
      ¬ Lists encodeSubscription cutShort msb lsb entries := by
    intro same
    have length := congrArg List.length same
    cases entries with
    | nil => simp [cutShort] at length
    | cons entry rest =>
      simp only [cutShort, List.flatMap_cons, encodeSubscription, List.length_cons, List.length_append,
        length_field, List.length_nil] at length
      omega
  refine ⟨{ arrival [] with buf := cutShort.encoded }, List.prefix_rfl, fun exact => ?_⟩
  exact subscribe_refuses cutShort_described rfl rfl other (exact.2 (.inr other))

end MqttBroker.Filters
