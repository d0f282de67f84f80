import MqttBroker.Logic.Traces
import MqttBroker.Protocol.Acknowledgements
import MqttBroker.Worker.Items
import MqttBroker.Worker.Rules

/-! The answers of a connection against the packets that ask for them: what is
written or queued is no more than what was asked for. -/
namespace MqttBroker.Balance
open Logic Protocol Worker World

variable {w w₁ w' : World} {sock : Fin 64}

/-! ### Requests and answers -/

/-- The state of an item for which an answer is to be written. -/
def waits : Ack → Option PacketState
  | .puback => some .sendpuback
  | .pubrec => some .sendpubrec
  | .pubrel => some .sendpubrel
  | .pubcomp => some .sendpubcomp
  | .unsuback => none

/-- The answer a packet is written as. -/
def writtenAs (bytes : List UInt8) : Option PackidStateItem → Option Ack
  | some item => answerIn item.state
  | none => Ack.read bytes

/-- A client has asked for an answer on a socket. -/
def asks (kind : Ack) (sock : Fin 64) (x : UInt16) : Event → Bool
  | .received s sockst packet =>
    decide (s = sock ∧ sockst.clientid ≠ [] ∧ request packet = some (kind, idBytes x))
  | _ => false

/-- The answer is written on a socket. -/
def answers (kind : Ack) (sock : Fin 64) (x : UInt16) : Event → Bool
  | .wrote s _ bytes item =>
    decide (s = sock ∧ writtenAs bytes item = some kind ∧ bytes = kind.encode x)
  | _ => false

def asked (kind : Ack) (sock : Fin 64) (x : UInt16) (trace : List Event) : Nat :=
  trace.countP (asks kind sock x)

def answered (kind : Ack) (sock : Fin 64) (x : UInt16) (trace : List Event) : Nat :=
  trace.countP (answers kind sock x)

/-- The answer is still to be written for an item. -/
def Waits (kind : Ack) (x : UInt16) (item : PackidStateItem) : Prop :=
  waits kind = some item.state ∧ item.packetId = x

instance (kind : Ack) (x : UInt16) : DecidablePred (Waits kind x) :=
  fun _ => inferInstanceAs (Decidable (_ ∧ _))

/-- How many items wait for the answer. -/
def waiting (kind : Ack) (x : UInt16) (items : List PackidStateItem) : Nat :=
  items.countP fun item => Waits kind x item

/-- An answer is four bytes with the identifier of a packet of the matching kind
that was received on the socket and is not yet answered; what is written for an
item otherwise is its message. An acknowledgement is
matched with an item of its identifier, and a PUBLISH is accepted under its
own. -/
def Sound (earlier : List Event) : Event → Prop
  | .wrote sock _ bytes item =>
    (∀ kind, writtenAs bytes item = some kind →
      ∃ x, bytes = kind.encode x ∧ answered kind sock x earlier < asked kind sock x earlier) ∧
    (writtenAs bytes item = none → ∀ x ∈ item, x.state.Counted)
  | .acked sock _ x item => x ≠ 0 ∧ item.packetId = x ∧ ∃ sockst packet before,
      earlier = .received sock sockst packet :: before ∧ idAt (bodyOf packet) = some (idBytes x)
  | .publishing _ _ qos x _ frame => qos ≠ 0 → publishId frame = some (idBytes x)
  | _ => True

/-- The answers that are written or wait are no more than those asked for; one
may be still to be queued. -/
structure Balanced (owing : Option (Ack × Fin 64 × UInt16)) (w : World) : Prop where
  sound : Lawful Sound w.trace
  balance : ∀ kind sock x, x ≠ 0 → answered kind sock x w.trace + waiting kind x (w.items sock) +
    (if owing = some (kind, sock, x) then 1 else 0) ≤ asked kind sock x w.trace

/-- What is balanced stays so. -/
def Keeps (w w' : World) : Prop := ∀ owing, Balanced owing w → Balanced owing w'

theorem Keeps.refl (w : World) : Keeps w w := fun _ => id

theorem Keeps.trans {w₂ : World} (first : Keeps w w₁) (second : Keeps w₁ w₂) : Keeps w w₂ :=
  fun owing balanced => second owing (first owing balanced)

/-- An event that neither asks nor answers, nor has to. -/
def Mute : Event → Prop
  | .wrote _ _ bytes item => writtenAs bytes item = none ∧ ∀ x ∈ item, x.state.Counted
  | .acked .. | .publishing .. | .received .. => False
  | _ => True

theorem mute_common {e : Event} (common : Common e) : Mute e := by
  cases e <;> first | exact trivial | exact absurd common id

theorem Mute.sound {e : Event} (mute : Mute e) (earlier : List Event) : Sound earlier e := by
  cases e with
  | wrote sock sockst bytes item =>
    obtain ⟨none, counted⟩ : _ ∧ _ := mute
    refine ⟨fun kind written => ?_, fun _ => counted⟩
    rw [none] at written
    cases written
  | acked | publishing => exact absurd mute id
  | _ => trivial

theorem Mute.counts {e : Event} (mute : Mute e) (kind : Ack) (sock : Fin 64) (x : UInt16) (earlier : List Event) :
    answered kind sock x (e :: earlier) = answered kind sock x earlier ∧
      asked kind sock x (e :: earlier) = asked kind sock x earlier := by
  cases e with
  | wrote s sockst bytes item =>
    obtain ⟨none, -⟩ : writtenAs bytes item = none ∧ _ := mute
    have silent : answers kind sock x (.wrote s sockst bytes item) = false := by simp [answers, none]
    exact ⟨List.countP_cons_of_neg (by simp [silent]), List.countP_cons_of_neg (by simp [asks])⟩
  | received => exact absurd mute id
  | _ => exact ⟨List.countP_cons_of_neg (by simp [answers]), List.countP_cons_of_neg (by simp [asks])⟩

/-- A step that logs a mute event, or none, and makes no item wait. -/
theorem keeps_of (late : List Event) (grown : w'.trace = late ++ w.trace) (mute : ∀ e ∈ late, Mute e)
    (fewer : ∀ kind sock x, x ≠ 0 → waiting kind x (w'.items sock) ≤ waiting kind x (w.items sock)) :
    Keeps w w' := by
  intro owing balanced
  have counts : ∀ kind sock x, answered kind sock x w'.trace = answered kind sock x w.trace ∧
      asked kind sock x w'.trace = asked kind sock x w.trace := by
    intro kind sock x
    rw [grown]
    clear grown
    induction late with
    | nil => exact ⟨rfl, rfl⟩
    | cons e late ih =>
      obtain ⟨first, rest⟩ := List.forall_mem_cons.mp mute
      obtain ⟨answered, asked⟩ := first.counts kind sock x (late ++ w.trace)
      exact ⟨answered.trans (ih rest).1, asked.trans (ih rest).2⟩
  refine ⟨?_, fun kind sock x used => ?_⟩
  · rw [grown]
    exact balanced.sound.append fun e member earlier => (mute e member).sound earlier
  · rw [(counts kind sock x).1, (counts kind sock x).2]
    have before := balanced.balance kind sock x used
    have fewer := fewer kind sock x used
    omega

theorem keeps_same (trace : w'.trace = w.trace) (items : w'.items = w.items) : Keeps w w' :=
  keeps_of [] trace (List.forall_mem_nil _) fun _ _ _ _ => by rw [items]

theorem keeps_log {e : Event} (mute : Mute e) : Keeps w (w.log e) :=
  keeps_of [e] rfl (List.forall_mem_singleton.mpr mute) fun _ _ _ _ => Nat.le_refl _

theorem keeps_quiet {α : Type} {m : Worker α} (quiet : Along Quiet m) : Along Keeps m := by
  intro w a w' ran
  obtain ⟨env, buf, rfl⟩ := quiet w a w' ran
  exact keeps_same rfl rfl

/-! ### Items -/

section Items
variable {items : List PackidStateItem} {item : PackidStateItem} {i : Nat} {kind : Ack} {x : UInt16}
  {f : PackidStateItem → PackidStateItem}

/-- One item less and another one more. -/
theorem waiting_modify (kind : Ack) (x : UInt16) (f : PackidStateItem → PackidStateItem)
    (at_i : items[i]? = some item) :
    waiting kind x (items.modify i f) + (if Waits kind x item then 1 else 0) =
      waiting kind x items + if Waits kind x (f item) then 1 else 0 := by
  induction items generalizing i with
  | nil => cases at_i
  | cons other items ih =>
    cases i with
    | zero =>
      obtain rfl : other = item := Option.some.inj at_i
      simp only [List.modify_zero_cons, waiting, List.countP_cons, decide_eq_true_eq]
      omega
    | succ i =>
      have rest := ih at_i
      simp only [List.modify_succ_cons, waiting, List.countP_cons] at rest ⊢
      omega

theorem waiting_append : waiting kind x (items ++ [item]) =
    waiting kind x items + if Waits kind x item then 1 else 0 := by
  simp only [waiting, List.countP_append, List.countP_singleton, decide_eq_true_eq]

/-- At most one item more waits where one was added, and none elsewhere. -/
theorem waiting_added (kind : Ack) (added : ItemAdded w sock item w') (other : Fin 64) (used : x ≠ 0) :
    waiting kind x (w'.items other) ≤
      waiting kind x (w.items other) + if other = sock ∧ Waits kind x item then 1 else 0 := by
  cases added with
  | @reused i old at_i free =>
    have free : ¬ Waits kind x old := fun held => used (held.2.symm.trans free)
    have changed := waiting_modify kind x (fun _ => item) at_i
    rw [if_neg free] at changed
    by_cases here : other = sock
    · subst here
      simp only [true_and]
      have items : ((w.log (.enqueued w.socks other i item)).setItem other i fun _ => item).items other =
        (w.items other).modify i fun _ => item := items_setItem
      rw [items, ← changed]
      exact Nat.le_refl _
    · rw [items_setItem_other here]
      exact Nat.le_add_right _ _
  | pushed env capacity =>
    by_cases here : other = sock
    · subst here
      simp only [items, setSock_socks, waiting_append, true_and]
      exact Nat.le_refl _
    · simp only [items, setSock_other _ _ here]
      exact Nat.le_add_right _ _
  | lost => exact Nat.le_add_right _ _

/-- A change after which an item waits for nothing. -/
theorem waiting_done (done : ∀ kind x item, x ≠ 0 → ¬ Waits kind x (f item)) (used : x ≠ 0) (other : Fin 64) :
    waiting kind x ((w.setItem sock i f).items other) ≤ waiting kind x (w.items other) := by
  by_cases here : other = sock
  · subst here
    rw [items_setItem]
    cases at_i : (w.items other)[i]? with
    | none =>
      have outside : (w.items other).length ≤ i := List.getElem?_eq_none_iff.mp at_i
      rw [List.modify_eq_self outside]
    | some item =>
      have changed := waiting_modify kind x f at_i
      rw [if_neg (done kind x item used)] at changed
      omega
  · rw [items_setItem_other here]

end Items

/-! ### What is no acknowledgement -/

section Rules
variable {α β : Type}

theorem keeps_bind {m : Worker α} {f : α → Worker β} (first : Along Keeps m)
    (rest : ∀ a, Along Keeps (f a)) : Along Keeps (m >>= f) := by
  refine Along.bind ?_ first rest
  exact Keeps.trans

theorem keeps_request (msg : Message) : Along Keeps (sendtoque msg) := by
  intro w ok w' ran
  obtain ⟨env, rfl⟩ := sendtoque_ok ran
  have quiet : Keeps w { w with env := env } := keeps_same rfl rfl
  exact quiet.trans (keeps_log trivial)

theorem keeps_write {bytes : List UInt8} {item : Option PackidStateItem} (other : writtenAs bytes item = none)
    (counted : ∀ x ∈ item, x.state.Counted) :
    Along Keeps (connWrite sock bytes item) := by
  intro w ok w' ran
  obtain ⟨env, rfl⟩ := connWrite_ok ran
  have quiet : Keeps w { w with env := env } := keeps_same rfl rfl
  exact quiet.trans (keeps_log ⟨other, counted⟩)

theorem keeps_added {item : PackidStateItem} (added : ItemAdded w sock item w')
    (idle : ∀ kind, waits kind ≠ some item.state) : Keeps w w' := by
  have fewer (kind : Ack) (other : Fin 64) (x : UInt16) (used : x ≠ 0) :
      waiting kind x (w'.items other) ≤ waiting kind x (w.items other) := by
    have most := waiting_added kind added other used
    rwa [if_neg fun both => idle kind both.2.1, Nat.add_zero] at most
  rcases trace_added added with ⟨i, grown⟩ | grown
  · exact keeps_of [_] grown (List.forall_mem_singleton.mpr trivial) fewer
  · exact keeps_of [_] grown (List.forall_mem_singleton.mpr trivial) fewer

theorem idle_publish (kind : Ack) : waits kind ≠ some .sendpublish := by
  cases kind <;> simp [waits]

/-- The calls that every packet can lead to keep the balance. -/
theorem keepsRules : Rules fun {α : Type} (m : Worker α) => Along Keeps m where
  done := Along.pure Keeps.refl
  bind := keeps_bind
  fault _ := fun _ => ensures_throw
  look rest _ := Along.get fun w => rest w w
  table tabular := by
    intro w u w' ran
    obtain rfl := modify_ok.mp ran
    refine keeps_same (tabular.trace w) ?_
    funext sock
    rw [World.items, tabular.socks w, World.items]
  setSock sock f same := by
    intro w u w' ran
    obtain rfl := setSock_ok.mp ran
    refine keeps_same rfl ?_
    funext other
    by_cases here : other = sock
    · subst here
      rw [World.items, setSock_socks, same, World.items]
    · rw [World.items, setSock_other _ _ here, World.items]
  onHeap call := keeps_quiet (quiet_onHeap call)
  random := keeps_quiet quiet_random
  request := keeps_request
  write sock head rest other := keeps_write other (by simp)
  log common := by
    intro w u w' ran
    obtain rfl := log_ok.mp ran
    exact keeps_log (mute_common common)
  enqueue sock item fresh := by
    intro w u w' ran
    refine keeps_added (addPacketId_ok ran) fun kind => ?_
    rw [fresh]
    exact idle_publish kind

theorem keepsReads : ReadRules fun {α : Type} (m : Worker α) => Along Keeps m where
  toRules := keepsRules
  byteAt pos := keeps_quiet (quiet_byteAt pos)
  rangeAt pos len := keeps_quiet (quiet_rangeAt pos len)

theorem keeps_dropConn (sock : Fin 64) (sendwill : Bool) : Along Keeps (dropConn sock sendwill) := by
  refine ruled_dropConn keepsRules (fun conn topic payload qos frame => ?_) sock sendwill
  intro w u w' ran
  obtain rfl := log_ok.mp ran
  exact keeps_log trivial

end Rules

/-! ### Asking, queueing and writing -/

section Steps
variable {owing : Option (Ack × Fin 64 × UInt16)} {item : PackidStateItem} {i : Nat} {kind : Ack} {x : UInt16}

theorem Balanced.settled (balanced : Balanced owing w) : Balanced none w := by
  refine ⟨balanced.sound, fun kind sock x used => ?_⟩
  have before := balanced.balance kind sock x used
  rw [if_neg (by simp)]
  omega

/-- An event that answers nothing. -/
theorem Balanced.log {e : Event} (balanced : Balanced owing w) (sound : Sound w.trace e)
    (silent : ∀ kind sock x, answers kind sock x e = false) : Balanced owing (w.log e) := by
  refine ⟨lawful_cons.mpr ⟨sound, balanced.sound⟩, fun kind sock x used => ?_⟩
  have before := balanced.balance kind sock x used
  have same : answered kind sock x (e :: w.trace) = answered kind sock x w.trace :=
    List.countP_cons_of_neg (by simp [silent])
  have more : asked kind sock x w.trace ≤ asked kind sock x (e :: w.trace) := by
    rw [asked, asked, List.countP_cons]
    exact Nat.le_add_right _ _
  change answered kind sock x (e :: w.trace) + waiting kind x (w.items sock) + _ ≤ _
  rw [same]
  exact before.trans more

/-- A packet that asks for an answer is received. -/
theorem Balanced.received (balanced : Balanced none w) {sockst : SockCid} {packet : List UInt8}
    (named : sockst.clientid ≠ []) (requests : request packet = some (kind, idBytes x)) :
    Balanced (some (kind, sock, x)) (w.log (.received sock sockst packet)) := by
  refine ⟨lawful_cons.mpr ⟨trivial, balanced.sound⟩, fun kind' sock' y used => ?_⟩
  have before := balanced.balance kind' sock' y used
  rw [if_neg (by simp)] at before
  have same : answered kind' sock' y (.received sock sockst packet :: w.trace) = answered kind' sock' y w.trace :=
    List.countP_cons_of_neg (by simp [answers])
  have counted : asked kind' sock' y (.received sock sockst packet :: w.trace) =
      asked kind' sock' y w.trace + if asks kind' sock' y (.received sock sockst packet) then 1 else 0 :=
    List.countP_cons
  change answered kind' sock' y (_ :: w.trace) + waiting kind' y (w.items sock') + _ ≤
    asked kind' sock' y (_ :: w.trace)
  rw [same, counted]
  split
  · rename_i this
    obtain ⟨rfl, rfl, rfl⟩ : kind = kind' ∧ sock = sock' ∧ x = y := by simpa using this
    have does : asks kind sock x (.received sock sockst packet) = true := by simp [asks, named, requests]
    rw [if_pos does]
    omega
  · omega

theorem answerIn_iff (state : PacketState) (kind : Ack) : answerIn state = some kind ↔ waits kind = some state := by
  cases state <;> cases kind <;> simp [answerIn, waits]

theorem waits_inj {kind kind' : Ack} {state : PacketState} (first : waits kind = some state)
    (second : waits kind' = some state) : kind = kind' := by
  rw [← answerIn_iff] at first second
  exact Option.some.inj (first.symm.trans second)

/-- The answer that is owed is queued as a new item. -/
theorem Balanced.added (kind : Ack) (balanced : Balanced (some (kind, sock, item.packetId)) w)
    (waits : waits kind = some item.state) (added : ItemAdded w sock item w') : Balanced none w' := by
  have mute : ∃ e, w'.trace = e :: w.trace ∧ Mute e := by
    rcases trace_added added with ⟨i, grown⟩ | grown
    · exact ⟨_, grown, trivial⟩
    · exact ⟨_, grown, trivial⟩
  obtain ⟨e, grown, mute⟩ := mute
  refine ⟨?_, fun kind' other y used => ?_⟩
  · rw [grown]
    exact lawful_cons.mpr ⟨mute.sound _, balanced.sound⟩
  · have before := balanced.balance kind' other y used
    have most := waiting_added kind' added other used
    obtain ⟨same_answered, same_asked⟩ := mute.counts kind' other y w.trace
    rw [grown, same_answered, same_asked, if_neg (by simp)]
    by_cases this : other = sock ∧ Waits kind' y item
    · obtain ⟨rfl, awaited, rfl⟩ := this
      obtain rfl := waits_inj waits awaited
      rw [if_pos rfl] at before
      rw [if_pos ⟨rfl, awaited, rfl⟩] at most
      omega
    · rw [if_neg this] at most
      omega

/-- The answer that is owed is queued for an item that is there. -/
theorem Balanced.moved {state : PacketState} (balanced : Balanced (some (kind, sock, item.packetId)) w)
    (at_i : (w.items sock)[i]? = some item) (waits : waits kind = some state) :
    Balanced none (w.setItem sock i ({ · with state := state })) := by
  refine ⟨balanced.sound, fun kind' other y used => ?_⟩
  have before := balanced.balance kind' other y used
  change answered kind' other y w.trace + _ + _ ≤ asked kind' other y w.trace
  rw [if_neg (by simp)]
  by_cases here : other = sock
  · subst here
    have changed := waiting_modify kind' y ({ · with state := state }) at_i
    rw [items_setItem]
    by_cases this : Waits kind' y { item with state := state }
    · rw [if_pos this] at changed
      obtain ⟨awaited, rfl⟩ := this
      obtain rfl := waits_inj waits awaited
      rw [if_pos rfl] at before
      omega
    · rw [if_neg this] at changed
      omega
  · rw [items_setItem_other here]
    omega

theorem writtenAs_item (bytes : List UInt8) (item : PackidStateItem) (kind : Ack) :
    writtenAs bytes (some item) = some kind ↔ waits kind = some item.state := answerIn_iff _ _

/-- The answer an item waits for is written, and it waits for none. -/
theorem Balanced.written {f : PackidStateItem → PackidStateItem} (balanced : Balanced none w)
    (at_i : (w.items sock)[i]? = some item) (used : item.packetId ≠ 0) (waits : waits kind = some item.state)
    (done : ∀ kind x item, x ≠ 0 → ¬ Waits kind x (f item)) :
    Balanced none ((w.log (.wrote sock (w.socks sock) (kind.encode item.packetId) (some item))).setItem sock i f) := by
  have counted : ∀ kind' y, Waits kind' y item ↔ kind' = kind ∧ y = item.packetId := by
    intro kind' y
    constructor
    · rintro ⟨awaited, rfl⟩
      exact ⟨waits_inj awaited waits, rfl⟩
    · rintro ⟨rfl, rfl⟩
      exact ⟨waits, rfl⟩
  have one : 0 < waiting kind item.packetId (w.items sock) :=
    List.countP_pos_iff.mpr ⟨item, List.mem_of_getElem? at_i, decide_eq_true ⟨waits, rfl⟩⟩
  refine ⟨lawful_cons.mpr ⟨⟨fun kind' written => ?_, fun none => ?_⟩, balanced.sound⟩, fun kind' other y live => ?_⟩
  · obtain rfl := waits_inj ((writtenAs_item _ _ _).mp written) waits
    have before := balanced.balance kind' sock item.packetId used
    exact ⟨item.packetId, rfl, by omega⟩
  · rw [(writtenAs_item _ _ kind).mpr waits] at none
    cases none
  · have before := balanced.balance kind' other y live
    rw [if_neg (by simp)] at before ⊢
    let e : Event := .wrote sock (w.socks sock) (kind.encode item.packetId) (some item)
    have same : asked kind' other y (e :: w.trace) = asked kind' other y w.trace :=
      List.countP_cons_of_neg (by simp [e, asks])
    have most : answered kind' other y (e :: w.trace) =
        answered kind' other y w.trace + if answers kind' other y e then 1 else 0 := List.countP_cons
    change answered kind' other y (e :: w.trace) + _ + 0 ≤ asked kind' other y (e :: w.trace)
    rw [same, most]
    by_cases here : other = sock
    · subst here
      have changed := waiting_modify kind' y f at_i
      rw [if_neg (done kind' y item live)] at changed
      have items : ((w.log e).setItem other i f).items other = (w.items other).modify i f := items_setItem
      rw [items]
      by_cases this : kind' = kind ∧ y = item.packetId
      · rw [if_pos ((counted kind' y).mpr this)] at changed
        split <;> omega
      · have silent : answers kind' other y e = false := by
          rw [answers, decide_eq_false_iff_not]
          rintro ⟨-, written, bytes⟩
          obtain rfl := waits_inj ((writtenAs_item _ _ _).mp written) waits
          have ids : idBytes item.packetId = idBytes y := by simpa [Ack.encode] using bytes
          exact this ⟨rfl, (idBytes_inj ids).symm⟩
        rw [if_neg fun held => this ((counted kind' y).mp held)] at changed
        rw [if_neg (by simp [silent])]
        omega
    · have silent : answers kind' other y e = false := by
        rw [answers, decide_eq_false_iff_not]
        exact fun held => here held.1.symm
      have items : ((w.log e).setItem sock i f).items other = w.items other := items_setItem_other here
      rw [items, if_neg (by simp [silent])]
      omega

end Steps

end MqttBroker.Balance
