import MqttBroker.Logic.Arrays
import MqttBroker.Worker.Items

/-! The reception of QoS 2 messages. A message that is sent again is taken for
a new one, so exactly-once delivery is left to publishers that send it once. -/
namespace MqttBroker
open Logic Protocol Worker World

/-- The states of an item for a message that is received. -/
def PacketState.Receiving (state : PacketState) : Prop :=
  state = .sendpubrec ∨ state = .getpubrel ∨ state = .sendpubcomp

instance : DecidablePred PacketState.Receiving := fun _ => inferInstanceAs (Decidable (_ ∨ _ ∨ _))

namespace Reception

variable {w w' : World} {owed owed' : List Admitted} {conn : Nat} {p : UInt16} {trace : List Event}
  {item : PackidStateItem} {sock : Fin 64} {i : Nat}

/-! ### The events of a handshake, with its connection and packet id -/

/-- A QoS 2 PUBLISH is accepted. -/
def published : Event → Option (Nat × UInt16)
  | .publishing _ sockst qos p _ _ => if qos = 2 then some (sockst.tls, p) else none
  | _ => none

/-- It is distributed to the subscribers. -/
def distributed : Event → Option (Nat × UInt16)
  | .distributing (some sender) _ _ qos p => if qos = 2 then some (sender.conn, p) else none
  | _ => none

/-- The item of the handshake is made. -/
def opened : Event → Option (Nat × UInt16)
  | .enqueued socks sock _ item =>
    if item.state = .sendpubrec then some ((socks sock).tls, item.packetId) else none
  | _ => none

/-- An answer is written for an item. -/
def answered (kind : Ack) : Event → Option (Nat × UInt16)
  | .wrote _ sockst bytes (some item) =>
    if answerIn item.state = some kind ∧ bytes = kind.encode item.packetId then some (sockst.tls, item.packetId)
    else none
  | _ => none

/-- The PUBREL is received. -/
def released : Event → Option (Nat × UInt16)
  | .acked _ sockst p item => if item.state = .getpubrel then some (sockst.tls, p) else none
  | _ => none

/-- How often an event has come for a handshake. -/
def tally (kind : Event → Option (Nat × UInt16)) (conn : Nat) (p : UInt16) (trace : List Event) : Nat :=
  trace.countP (kind · = some (conn, p))

/-- The items of a handshake in a state. -/
def Of (state : PacketState) (conn : Nat) (p : UInt16) (item : PackidStateItem) : Prop :=
  item.state = state ∧ item.packetId = p ∧ item.origin.conn = conn

instance (state : PacketState) (conn : Nat) (p : UInt16) : DecidablePred (Of state conn p) :=
  fun _ => inferInstanceAs (Decidable (_ ∧ _))

/-- How many there are, on all sockets. -/
def inHand (w : World) (state : PacketState) (conn : Nat) (p : UInt16) : Nat :=
  ∑ sock, (w.items sock).countP (Of state conn p ·)

/-! ### The session of a client -/

/-- A client has a QoS 2 PUBLISH accepted. -/
def publishedBy : Event → Option (Key × UInt16)
  | .publishing _ sockst qos p _ _ => if qos = 2 then some (sockst.clientid, p) else none
  | _ => none

/-- It is distributed to the subscribers. -/
def distributedBy : Event → Option (Key × UInt16)
  | .distributing (some sender) _ _ qos p => if qos = 2 then some (sender.clientid, p) else none
  | _ => none

/-- The client releases the message, or begins a new session. -/
def EndedBy (clientid : Key) (p : UInt16) : Event → Prop
  | .acked _ sockst x item => item.state = .getpubrel ∧ sockst.clientid = clientid ∧ x = p
  | .connecting _ other clean _ => other = clientid ∧ clean
  | _ => False

instance (clientid : Key) (p : UInt16) : DecidablePred (EndedBy clientid p) := fun e => by
  rcases e with ⟨⟩ <;> dsimp only [EndedBy] <;> infer_instance

/-- An event has come for a message of the client that is not released. -/
abbrev Unended (kind : Event → Option (Key × UInt16)) (clientid : Key) (p : UInt16) : List Event → Prop :=
  Since (EndedBy clientid p) (kind · = some (clientid, p))

/-- An event comes once for a message of a client. -/
def Once (kind : Event → Option (Key × UInt16)) : List Event → Prop :=
  Lawful fun earlier e => ∀ clientid p, kind e = some (clientid, p) → ¬ Unended kind clientid p earlier

/-- The reply to a PUBLISH found no room. -/
def Refused : Event → Prop
  | .queued _ ok => ok = false
  | .lost _ => True
  | _ => False

instance : DecidablePred Refused := fun e => by
  rcases e with ⟨⟩ <;> dsimp only [Refused] <;> infer_instance

/-- A QoS 2 PUBLISH has an identifier, and is not sent again until it is released:
not on its connection, and not by its client in one session. Its item is made. No
connection begins on a socket that has such an item, nor does one go on with the
session of a client whose message is not released. -/
def Orderly (earlier : List Event) : Event → Prop
  | .publishing _ sockst qos p _ _ => qos = 2 → p ≠ 0 ∧
      ¬ Since (released · = some (sockst.tls, p)) (published · = some (sockst.tls, p)) earlier ∧
      ¬ Unended publishedBy sockst.clientid p earlier
  | .distributing publisher _ _ qos _ => publisher.isSome → qos = 2 → ∀ e ∈ earlier.head?, ¬ Refused e
  | .started _ items => ∀ item ∈ items, item.packetId ≠ 0 → ¬ item.state.Receiving
  | .connecting _ clientid clean _ => ¬ clean → ∀ e ∈ earlier, ∀ sent ∈ publishedBy e, sent.1 = clientid →
      ¬ Unended publishedBy clientid sent.2 earlier
  | _ => True

instance (earlier : List Event) : DecidablePred (Orderly earlier) := fun e => by
  rcases e with ⟨⟩ <;> dsimp only [Orderly] <;> infer_instance

/-! ### What a step does for the handshakes -/

/-- The events that are of no handshake, and let none begin. -/
def Other : Event → Prop
  | .publishing .. | .distributing .. | .started .. => False
  | .enqueued _ _ _ item => item.state ≠ .sendpubrec
  | .wrote _ _ _ (some item) => item.state.Counted
  | .acked _ _ _ item => item.state = .getpuback ∨ item.state = .getpubrec
  | _ => True

theorem Other.none {e : Event} (other : Other e) : published e = none ∧ distributed e = none ∧ opened e = none ∧
    (∀ kind, answered kind e = none) ∧ released e = none := by
  cases e with
  | publishing | distributing | started => exact absurd other id
  | enqueued _ _ _ item => exact ⟨rfl, rfl, if_neg other, fun _ => rfl, rfl⟩
  | wrote _ _ _ item =>
    cases item with
    | none => exact ⟨rfl, rfl, rfl, fun _ => rfl, rfl⟩
    | some item =>
      refine ⟨rfl, rfl, rfl, fun kind => if_neg fun answers => ?_, rfl⟩
      rcases other with state | state | state <;> simp [state, answerIn] at answers
  | acked _ _ _ item =>
    refine ⟨rfl, rfl, rfl, fun _ => rfl, if_neg ?_⟩
    rcases other with state | state <;> simp [state]
  | _ => exact ⟨rfl, rfl, rfl, fun _ => rfl, rfl⟩

theorem other_unaccepted {e : Event} (other : Other e) : ¬ Accepts e := by
  cases e <;> first | exact not_false | exact absurd other id

/-- The items of the handshakes are as they were. -/
structure Still (w w' : World) : Prop where
  tls : ∀ s, (w'.socks s).tls = (w.socks s).tls
  hands : ∀ state conn p, state.Receiving → p ≠ 0 → inHand w' state conn p = inHand w state conn p
  own : ∀ s, ∀ item ∈ w'.items s, item.packetId ≠ 0 → item.state.Receiving → item ∈ w.items s

theorem still_same (items : w'.items = w.items) (tls : ∀ s, (w'.socks s).tls = (w.socks s).tls) : Still w w' where
  tls := tls
  hands _ _ _ _ _ := by rw [inHand, items, inHand]
  own s item member _ _ := by rwa [items] at member

/-- One item is changed. -/
theorem inHand_setItem {f : PackidStateItem → PackidStateItem} (at_i : (w.items sock)[i]? = some item)
    (state : PacketState) (conn : Nat) (p : UInt16) :
    inHand (w.setItem sock i f) state conn p + (decide (Of state conn p item)).toNat =
      inHand w state conn p + (decide (Of state conn p (f item))).toNat := by
  have here := countP_modify (p := fun item => decide (Of state conn p item)) (f := f) at_i
  rw [← items_setItem] at here
  have sums := sum_changed (f := fun s => (w.items s).countP (Of state conn p ·))
    (g := fun s => ((w.setItem sock i f).items s).countP (Of state conn p ·)) sock
    fun s other => by rw [items_setItem_other other]
  unfold inHand
  omega

theorem still_setItem {f : PackidStateItem → PackidStateItem} (at_i : (w.items sock)[i]? = some item)
    (before : ¬ item.state.Receiving) (after : (f item).packetId = 0 ∨ ¬ (f item).state.Receiving) :
    Still w (w.setItem sock i f) where
  tls := tls_setItem
  hands state conn p receiving used := by
    have changed := inHand_setItem (f := f) at_i state conn p
    have no_old : ¬ Of state conn p item := fun old => before (old.1 ▸ receiving)
    have no_new : ¬ Of state conn p (f item) := by
      rintro ⟨same, id, -⟩
      rcases after with free | other
      · exact used (id.symm.trans free)
      · exact other (same ▸ receiving)
    simpa [no_old, no_new] using changed
  own s x member used receiving := by
    rcases mem_setItem at_i member with member | ⟨-, rfl⟩
    · exact member
    · rcases after with free | other
      · exact absurd free used
      · exact absurd receiving other

/-- An item is added, unless it is lost. -/
theorem inHand_added (added : ItemAdded w sock item w') (state : PacketState) (conn : Nat) (used : p ≠ 0) :
    w'.trace = .lost item :: w.trace ∧ inHand w' state conn p = inHand w state conn p ∨
      ∃ j, w'.trace = .enqueued w.socks sock j item :: w.trace ∧
        inHand w' state conn p = inHand w state conn p + (decide (Of state conn p item)).toNat := by
  cases added with
  | lost => exact .inl ⟨rfl, rfl⟩
  | @reused i old at_i free =>
    refine .inr ⟨i, rfl, ?_⟩
    have changed := inHand_setItem (w := w.log (.enqueued w.socks sock i item)) (f := fun _ => item) at_i state conn p
    have no_old : ¬ Of state conn p old := fun held => used (held.2.1.symm.trans free)
    have same : inHand (w.log (.enqueued w.socks sock i item)) state conn p = inHand w state conn p := rfl
    simpa [no_old, same] using changed
  | pushed env capacity =>
    refine .inr ⟨_, rfl, ?_⟩
    generalize same : ({ w with env := env }.log (.enqueued w.socks sock (w.items sock).length item)).setSock sock
      ({ · with packidState := ⟨w.items sock ++ [item], capacity⟩ }) = w'
    have here : w'.items sock = w.items sock ++ [item] := by
      subst same
      simp only [items, setSock_socks]
    have others : ∀ s, s ≠ sock → w'.items s = w.items s := by
      intro s other
      subst same
      simp only [items, setSock_other _ _ other]
      rfl
    have sums := sum_changed (f := fun s => (w.items s).countP (Of state conn p ·))
      (g := fun s => (w'.items s).countP (Of state conn p ·)) sock fun s other => by rw [others s other]
    have more : (w'.items sock).countP (Of state conn p ·) =
        (w.items sock).countP (Of state conn p ·) + (decide (Of state conn p item)).toNat := by
      rw [here, List.countP_append, List.countP_singleton]
      cases decide (Of state conn p item) <;> rfl
    unfold inHand
    omega

theorem still_added (added : ItemAdded w sock item w') (other : ¬ item.state.Receiving) : Still w w' where
  tls := tls_added added
  hands state conn p receiving used := by
    have no : ¬ Of state conn p item := fun held => other (held.1 ▸ receiving)
    rcases inHand_added added state conn used with ⟨-, same⟩ | ⟨-, -, more⟩
    · exact same
    · simpa [no] using more
  own s x member used receiving := by
    rcases mem_added added member with member | ⟨-, rfl⟩
    · exact member
    · exact absurd receiving other

/-- What a step does for the handshakes. -/
inductive Part (w : World) (owed : List Admitted) (w' : World) (owed' : List Admitted) : Prop
  | other (events : List Event) : w'.trace = events ++ w.trace → (∀ e ∈ events, Other e) → Still w w' →
      ((∀ m ∈ owed', m.stamp.isSome) → ∀ m ∈ owed, m.stamp.isSome) → Part w owed w' owed'
  | starts (sock : Fin 64) : w' =
        { (w.log (.started sock (w.items sock))).setSock sock ({ · with tls := w.nextTls }) with
          nextTls := w.nextTls + 1 } → owed' = owed → Part w owed w' owed'
  | accepts {sock : Fin 64} {qos : UInt8} {packetId : UInt16} {topic frame : List UInt8} : owed = [] →
      w' = w.log (.publishing sock (w.socks sock) qos packetId topic frame) →
      ¬ (∀ m ∈ owed', m.stamp.isSome) → Part w owed w' owed'
  | distributes {socks : Fin 64 → SockCid} {store : PublishHashmap} {publisher : Option Publisher}
      {topic frame : List UInt8} {qos : UInt8} {packetId : UInt16} {ok : Bool} :
      Distributes w.trace publisher qos packetId topic frame →
      w'.trace = .adding socks store packetId frame qos ok ::
        .distributing publisher topic frame qos packetId :: w.trace →
      w'.socks = w.socks → (publisher = none → owed = []) → Part w owed w' owed'
  | opens {sock : Fin 64} {item : PackidStateItem} : item.state = .sendpubrec → item.qos = 2 →
      item.origin.conn = (w.socks sock).tls →
      InHand Event.OfRetained w.trace sock (w.socks sock) item.qos item.packetId item.origin.topic
        item.origin.frame → ItemAdded w sock item w' → owed' = owed → Part w owed w' owed'
  | replies {sock : Fin 64} {kind : Ack} {i : Nat} {item : PackidStateItem}
      (f : PackidStateItem → PackidStateItem) : (w.items sock)[i]? = some item → item.packetId ≠ 0 →
      answerIn item.state = some kind → Advances item (f item) →
      w' = (w.log (.wrote sock (w.socks sock) (kind.encode item.packetId) (some item))).setItem sock i f →
      owed' = owed → Part w owed w' owed'
  | answers {sock : Fin 64} {i : Nat} {item : PackidStateItem}
      (f : PackidStateItem → PackidStateItem) : (w.items sock)[i]? = some item →
      item.state = .getpubrel ∨ item.state = .getpubcomp → Advances item (f item) →
      w' = (w.log (.acked sock (w.socks sock) item.packetId item)).setItem sock i f →
      owed' = owed → Part w owed w' owed'

theorem counted_other {state : PacketState} (counted : state.Counted) : ¬ state.Receiving := by
  rcases counted with rfl | rfl | rfl <;> decide

/-- An item of another kind is added. -/
theorem part_added {w₁ : World} (added : ItemAdded w sock item w₁) (other : ¬ item.state.Receiving) (late : List Event)
    (grown : w'.trace = late ++ w₁.trace) (others : ∀ e ∈ late, Other e) (items : w'.items = w₁.items)
    (tls : ∀ s, (w'.socks s).tls = (w₁.socks s).tls) : Part w owed w' owed := by
  have still := still_added added other
  have fresh : item.state ≠ .sendpubrec := fun first => other (.inl first)
  have kept : Still w w' :=
    { tls := fun s => (tls s).trans (still.tls s)
      hands := fun state conn p receiving used => by
        have same : inHand w' state conn p = inHand w₁ state conn p := by rw [inHand, items, inHand]
        exact same.trans (still.hands state conn p receiving used)
      own := fun s x member => still.own s x (items ▸ member) }
  rcases trace_added added with ⟨_, first⟩ | first
  · refine .other (late ++ [_]) (by rw [grown, first, List.append_assoc]; rfl) ?_ kept id
    exact List.forall_mem_append.mpr ⟨others, List.forall_mem_singleton.mpr fresh⟩
  · refine .other (late ++ [_]) (by rw [grown, first, List.append_assoc]; rfl) ?_ kept id
    exact List.forall_mem_append.mpr ⟨others, List.forall_mem_singleton.mpr trivial⟩

theorem releases_idle {item' : PackidStateItem} (releases : Releases w sock item item') :
    item'.packetId = 0 ∨ ¬ item'.state.Receiving := by
  cases releases with
  | sent | acked => exact .inl rfl
  | received => exact .inr (by dsimp only; decide)

theorem still_forget {packetId : UInt16} (still : Still w w') : Still w (w'.forget packetId) where
  tls s := by
    rw [forget_socks]
    exact still.tls s
  hands state conn p receiving used := by
    rw [inHand, forget_items]
    exact still.hands state conn p receiving used
  own s item member := by
    rw [forget_items] at member
    exact still.own s item member

theorem unstamped (sender : Publisher) (packetId : UInt16) (topic frame : List UInt8) :
    ¬ ∀ m ∈ awaiting (some sender) packetId topic frame, m.stamp.isSome := by
  intro stamped
  exact absurd (stamped _ (List.mem_singleton_self _)) Bool.false_ne_true

theorem act_part (act : MessageAct w owed w' owed') : Part w owed w' owed' := by
  have same {w' : World} {owed : List Admitted} (events : List Event) (grown : w'.trace = events ++ w.trace)
      (others : ∀ e ∈ events, Other e) (items : w'.items = w.items) (socks : w'.socks = w.socks) :
      Part w owed w' owed :=
    .other events grown others (still_same items fun s => by rw [socks]) id
  cases act with
  | start sock => exact .starts sock rfl rfl
  | accept => exact .accepts rfl rfl (unstamped _ _ _ _)
  | readd | unheard | unknown => exact same [_] rfl (List.forall_mem_singleton.mpr trivial) rfl rfl
  | enter m _ _ distributes =>
    refine .distributes distributes rfl rfl fun none => ?_
    rw [none]
    rfl
  | refuse _ _ _ _ _ distributes =>
    refine .distributes distributes rfl rfl ?_
    rintro rfl
    rfl
  | enqueue _ _ _ _ _ _ _ _ added =>
    exact part_added added (counted_other (.inl rfl)) [_] rfl (List.forall_mem_singleton.mpr trivial) rfl fun _ => rfl
  | deliver _ _ _ _ added =>
    exact part_added added (counted_other (.inl rfl)) [_, _] rfl (by simp [Other]) rfl fun _ => rfl
  | retire m stamped =>
    exact .other [_] rfl (List.forall_mem_singleton.mpr trivial) (still_same rfl fun _ => rfl)
      fun _ => List.forall_mem_singleton.mpr stamped
  | retainRefused => exact same [_, _] rfl (by simp [Other]) rfl rfl
  | retainNew => exact same [_, _, _, _] rfl (by simp [Other]) rfl rfl
  | retainReplace =>
    exact same _ (forget_grown [_, _, _] rfl) (forgotten_all (fun _ => trivial) (by simp [Other]))
      (forget_items _) (forget_socks _)
  | incoming _ fits conn hand added =>
    rcases fits with ⟨state, -⟩ | ⟨state, qos⟩
    · exact part_added added (by rw [state]; decide) [] rfl (List.forall_mem_nil _) rfl fun _ => rfl
    · exact .opens state qos conn hand added rfl
  | reply _ _ f at_i used replies advances =>
    obtain ⟨kind, answers, rfl⟩ := replies
    exact .replies f at_i used answers advances rfl rfl
  | send _ _ _ _ counted => exact same [_] rfl (List.forall_mem_singleton.mpr counted) rfl rfl
  | matched _ _ waits => exact same [_] rfl (List.forall_mem_singleton.mpr waits) rfl rfl
  | answer _ f at_i waits advances => exact .answers f at_i waits advances rfl rfl
  | resend => exact same [_] rfl (List.forall_mem_singleton.mpr trivial) rfl rfl
  | await _ at_i counted =>
    refine .other [] rfl (List.forall_mem_nil _) (still_setItem at_i (counted_other counted) (.inr ?_)) id
    dsimp only
    split <;> decide
  | release sock packetId f at_i counted _ _ releases =>
    refine .other _ (forget_grown [] rfl) (forgotten_all (fun _ => trivial) (List.forall_mem_nil _))
      (still_forget (still_setItem at_i (counted_other counted) (releases_idle releases))) id
  | abandon sock at_i counted =>
    have still := still_setItem (f := ({ · with packetId := 0 })) at_i (counted_other counted) (.inl rfl)
    exact .other _ (forget_grown [.unsent _] rfl)
      (forgotten_all (fun _ => trivial) (List.forall_mem_singleton.mpr trivial))
      (still_forget ⟨still.tls, still.hands, still.own⟩) id

/-! ### One PUBLISH after another -/

/-- A PUBLISH is accepted when the one before it is answered, and what answers
one comes after it. -/
def Turn (answers : Event → Option (Nat × UInt16)) (earlier : List Event) (e : Event) : Prop :=
  (Accepts e → pending published answers earlier = none) ∧
    ∀ k, answers e = some k → pending published answers earlier = some k

/-- Every PUBLISH is answered by an event of a kind before the next is accepted. -/
structure Answered (answers : Event → Option (Nat × UInt16)) (w : World) (owed : List Admitted) : Prop where
  turn : Lawful (Turn answers) w.trace
  settled : (∀ m ∈ owed, m.stamp.isSome) → pending published answers w.trace = none

variable {answers : Event → Option (Nat × UInt16)} {sockst : SockCid} {qos : UInt8} {topic frame : List UInt8}
  {P : Event → Prop}

theorem not_accepts {e : Event} (other : ¬ Accepts e) : published e = none := by
  cases e with
  | publishing => exact absurd trivial other
  | _ => rfl

/-- The PUBLISH in hand is pending, if it is one of QoS 2 and not answered. -/
theorem hand_pending (hand : InHand P trace sock sockst qos p topic frame) (two : qos = 2)
    (silent : ∀ e, P e → published e = none ∧ answers e = none) :
    pending published answers trace = some (sockst.tls, p) := by
  obtain ⟨late, earlier, rfl, quiet⟩ := hand
  rw [pending_append fun e member => silent e (quiet e member)]
  exact pending_start (if_pos two)

/-- If it has another QoS, none is. -/
theorem hand_idle (hand : InHand P trace sock sockst qos p topic frame) (other : qos ≠ 2)
    (silent : ∀ e, P e → published e = none) (turn : Lawful (Turn answers) trace) :
    pending published answers trace = none := by
  obtain ⟨late, earlier, rfl, quiet⟩ := hand
  have idle := (lawful_cons.mp turn.before).1.1 trivial
  rw [List.append_cons]
  refine pending_none idle (List.forall_mem_append.mpr ⟨fun e member => silent e (quiet e member), ?_⟩)
  exact List.forall_mem_singleton.mpr (if_neg other)

theorem reply_silent (e : Event) (reply : e.OfReply) : published e = none ∧ distributed e = none := by
  cases e <;> first | exact ⟨rfl, rfl⟩ | exact absurd reply id

theorem retained_silent (e : Event) (retained : e.OfRetained) : published e = none ∧ opened e = none := by
  cases e <;> first | exact ⟨rfl, rfl⟩ | exact absurd retained id

namespace Answered

theorem other (given : Answered answers w owed) (events : List Event) (grown : w'.trace = events ++ w.trace)
    (others : ∀ e ∈ events, ¬ Accepts e ∧ answers e = none)
    (stamped : (∀ m ∈ owed', m.stamp.isSome) → ∀ m ∈ owed, m.stamp.isSome) : Answered answers w' owed' := by
  refine ⟨?_, fun all => ?_⟩
  · rw [grown]
    refine given.turn.append fun e member earlier => ?_
    obtain ⟨unaccepted, silent⟩ := others e member
    exact ⟨fun accepts => absurd accepts unaccepted, fun k answer => absurd (silent.symm.trans answer) nofun⟩
  · rw [grown, pending_append fun e member => ⟨not_accepts (others e member).1, (others e member).2⟩]
    exact given.settled (stamped all)

theorem accepted {packetId : UInt16} (given : Answered answers w [])
    (silent : answers (.publishing sock sockst qos packetId topic frame) = none)
    (unstamped : ¬ ∀ m ∈ owed', m.stamp.isSome) :
    Answered answers (w.log (.publishing sock sockst qos packetId topic frame)) owed' := by
  refine ⟨lawful_cons.mpr ⟨⟨fun _ => given.settled (List.forall_mem_nil _), fun k answer => ?_⟩, given.turn⟩,
    fun stamped => absurd stamped unstamped⟩
  exact absurd (silent.symm.trans answer) nofun

/-- The message in hand is distributed. -/
theorem distributed_now {socks : Fin 64 → SockCid} {store : PublishHashmap} {publisher : Option Publisher} {ok : Bool}
    (given : Answered distributed w owed) (distributes : Distributes w.trace publisher qos p topic frame)
    (grown : w'.trace = .adding socks store p frame qos ok ::
      .distributing publisher topic frame qos p :: w.trace)
    (none_owed : publisher = none → owed = []) : Answered distributed w' owed' := by
  have turn : Turn distributed w.trace (.distributing publisher topic frame qos p) ∧
      pending published distributed (.distributing publisher topic frame qos p :: w.trace) = none := by
    cases publisher with
    | none =>
      rw [none_owed rfl] at given
      have idle : pending published distributed w.trace = none := given.settled (List.forall_mem_nil _)
      exact ⟨⟨False.elim, fun k answer => (by cases answer)⟩, idle⟩
    | some sender =>
      obtain ⟨sock, sockst, rfl, hand⟩ := distributes.sent sender rfl
      by_cases two : qos = 2
      · have answer : distributed (.distributing (some ⟨sockst.tls, sockst.clientid⟩) topic frame qos p) =
            some (sockst.tls, p) := if_pos two
        refine ⟨⟨False.elim, fun k same => ?_⟩, pending_answer rfl answer⟩
        rw [← same, answer]
        exact hand_pending hand two reply_silent
      · have silent : distributed (.distributing (some ⟨sockst.tls, sockst.clientid⟩) topic frame qos p) = none :=
          if_neg two
        refine ⟨⟨False.elim, fun k same => ?_⟩, ?_⟩
        · rw [silent] at same
          cases same
        · rw [pending, silent]
          exact hand_idle hand two (fun e reply => (reply_silent e reply).1) given.turn
  refine ⟨?_, fun _ => ?_⟩ <;> rw [grown]
  · exact lawful_cons.mpr ⟨⟨False.elim, fun k answer => (by cases answer)⟩, lawful_cons.mpr ⟨turn.1, given.turn⟩⟩
  · exact turn.2

/-- The item of the message has been made by then. -/
theorem distributed_after {socks : Fin 64 → SockCid} {store : PublishHashmap} {publisher : Option Publisher} {ok : Bool}
    (given : Answered opened w owed) (distributes : Distributes w.trace publisher qos p topic frame)
    (grown : w'.trace = .adding socks store p frame qos ok ::
      .distributing publisher topic frame qos p :: w.trace)
    (none_owed : publisher = none → owed = []) (orderly : Lawful Orderly w'.trace) : Answered opened w' owed' := by
  have idle : pending published opened w.trace = none := by
    cases publisher with
    | none =>
      rw [none_owed rfl] at given
      exact given.settled (List.forall_mem_nil _)
    | some sender =>
      by_cases two : qos = 2
      · obtain ⟨e, earlier, split, replied⟩ := distributes.replied rfl two
        rw [grown] at orderly
        have room := (lawful_cons.mp (lawful_cons.mp orderly).2).1 rfl two e (by rw [split]; rfl)
        rw [split]
        cases e with
        | queued => exact absurd replied room
        | lost => exact absurd trivial room
        | enqueued _ _ _ item => exact pending_answer rfl (if_pos replied.1)
        | _ => exact absurd replied id
      · obtain ⟨sock, sockst, rfl, hand⟩ := distributes.sent sender rfl
        exact hand_idle hand two (fun e reply => (reply_silent e reply).1) given.turn
  have silent : ∀ e ∈ [Event.adding socks store p frame qos ok, .distributing publisher topic frame qos p],
      ¬ Accepts e ∧ opened e = none := by simp [Accepts, opened]
  have kept : Answered opened w' owed := given.other _ grown silent id
  refine ⟨kept.turn, fun _ => ?_⟩
  rw [grown]
  exact (pending_append fun e member => ⟨not_accepts (silent e member).1, (silent e member).2⟩).trans idle

/-- The item of the message in hand is made. -/
theorem opened_now (given : Answered opened w owed) (first : item.state = .sendpubrec) (two : item.qos = 2)
    (hand : InHand Event.OfRetained w.trace sock (w.socks sock) item.qos item.packetId item.origin.topic
      item.origin.frame)
    (added : ItemAdded w sock item w') : Answered opened w' owed := by
  rcases trace_added added with ⟨j, grown⟩ | grown
  · have answer : opened (.enqueued w.socks sock j item) = some ((w.socks sock).tls, item.packetId) := if_pos first
    refine ⟨?_, fun _ => ?_⟩ <;> rw [grown]
    · refine lawful_cons.mpr ⟨⟨False.elim, fun k same => ?_⟩, given.turn⟩
      rw [← same, answer]
      exact hand_pending hand two retained_silent
    · exact pending_answer rfl answer
  · exact given.other [_] grown (List.forall_mem_singleton.mpr ⟨not_false, rfl⟩) id

/-- At the head of the event loop as many are answered as are accepted. -/
theorem tally_eq (given : Answered answers w []) (apart : ∀ e, Accepts e → answers e = none) (conn : Nat) (p : UInt16) :
    tally published conn p w.trace = tally answers conn p w.trace := by
  have inTurn : Lawful (InTurn published answers) w.trace := by
    intro late e earlier split
    obtain ⟨idle, answer⟩ := given.turn late e earlier split
    refine ⟨fun start => ?_, answer⟩
    have accepts : Accepts e := by
      by_contra other
      rw [not_accepts other] at start
      cases start
    exact ⟨apart e accepts, idle accepts⟩
  have counted := count_pending inTurn (conn, p)
  rw [given.settled (List.forall_mem_nil _)] at counted
  exact counted

end Answered

/-! ### The stages of a handshake -/

/-- The event with which an item comes into a state. -/
def enters : PacketState → Event → Option (Nat × UInt16)
  | .sendpubrec => opened
  | .getpubrel => answered .pubrec
  | .sendpubcomp => released
  | _ => fun _ => none

/-- The event with which it leaves the state. -/
def leaves : PacketState → Event → Option (Nat × UInt16)
  | .sendpubrec => answered .pubrec
  | .getpubrel => released
  | .sendpubcomp => answered .pubcomp
  | _ => fun _ => none

theorem tally_cons (kind : Event → Option (Nat × UInt16)) (conn : Nat) (p : UInt16) (e : Event) :
    tally kind conn p (e :: trace) = tally kind conn p trace + (decide (kind e = some (conn, p))).toNat := by
  rw [tally, List.countP_cons, tally]
  cases decide (kind e = some (conn, p)) <;> rfl

theorem tally_append {kind : Event → Option (Nat × UInt16)} {late : List Event} (silent : ∀ e ∈ late, kind e = none)
    (conn : Nat) (p : UInt16) : tally kind conn p (late ++ trace) = tally kind conn p trace := by
  rw [tally, List.countP_append, tally, List.countP_eq_zero.mpr fun e member => by simp [silent e member], Nat.zero_add]

/-- A handshake has come into each of its states as often as it has left it, but
for the items that are in it. These are on the socket of its connection. -/
structure Staged (w : World) : Prop where
  own : ∀ s, ∀ item ∈ w.items s, item.packetId ≠ 0 → item.state.Receiving → item.origin.conn = (w.socks s).tls
  balance : ∀ state conn p, state.Receiving → p ≠ 0 →
    tally (enters state) conn p w.trace = tally (leaves state) conn p w.trace + inHand w state conn p

namespace Staged

/-- Events that no item enters or leaves a state with. -/
theorem silent (staged : Staged w) (late : List Event) (grown : w'.trace = late ++ w.trace)
    (quiet : ∀ e ∈ late, opened e = none ∧ (∀ kind, answered kind e = none) ∧ released e = none) (still : Still w w') :
    Staged w' where
  own s item member used receiving := by
    rw [still.tls]
    exact staged.own s item (still.own s item member used receiving) used receiving
  balance state conn p receiving used := by
    have neither : ∀ e ∈ late, enters state e = none ∧ leaves state e = none := by
      intro e member
      obtain ⟨opens, answers, releases⟩ := quiet e member
      cases state <;> first | exact ⟨opens, answers _⟩ | exact ⟨answers _, releases⟩ | exact ⟨releases, answers _⟩ |
        exact ⟨rfl, rfl⟩
    rw [grown, tally_append fun e member => (neither e member).1, tally_append fun e member => (neither e member).2,
      still.hands state conn p receiving used]
    exact staged.balance state conn p receiving used

/-- An item moves on with an event. -/
theorem moved {f : PackidStateItem → PackidStateItem} {e : Event} (staged : Staged w)
    (at_i : (w.items sock)[i]? = some item) (advances : Advances item (f item))
    (moves : ∀ state conn p, state.Receiving → p ≠ 0 →
      (decide (enters state e = some (conn, p))).toNat + (decide (Of state conn p item)).toNat =
        (decide (leaves state e = some (conn, p))).toNat + (decide (Of state conn p (f item))).toNat) :
    Staged ((w.log e).setItem sock i f) where
  own s x member used receiving := by
    have tls : (((w.log e).setItem sock i f).socks s).tls = (w.socks s).tls := tls_setItem (w := w.log e) s
    rw [tls]
    rcases mem_setItem (w := w.log e) at_i member with member | ⟨rfl, rfl⟩
    · exact staged.own s x member used receiving
    · obtain ⟨-, -, id, origin⟩ := advances.kept
      rw [origin]
      refine staged.own s item (List.mem_of_getElem? at_i) (id.resolve_right used ▸ used) ?_
      generalize f item = item' at advances receiving used
      cases advances with
      | done => exact absurd rfl used
      | next states =>
        simp only [List.mem_cons, List.not_mem_nil, or_false, Prod.mk.injEq] at states
        rcases states with ⟨state, rfl⟩ | ⟨state, rfl⟩ | ⟨state, rfl⟩
        · exact .inl state
        · exact .inr (.inl state)
        · rcases receiving with wrong | wrong | wrong <;> cases wrong
  balance state conn p receiving used := by
    have before := staged.balance state conn p receiving used
    have changed := inHand_setItem (w := w.log e) (f := f) at_i state conn p
    have same : inHand (w.log e) state conn p = inHand w state conn p := rfl
    have moves := moves state conn p receiving used
    have grown : ((w.log e).setItem sock i f).trace = e :: w.trace := rfl
    rw [grown, tally_cons, tally_cons]
    omega

/-- The item of a handshake is made. -/
theorem opened_now (staged : Staged w) (first : item.state = .sendpubrec) (own : item.origin.conn = (w.socks sock).tls)
    (added : ItemAdded w sock item w') : Staged w' where
  own s x member used receiving := by
    rw [tls_added added]
    rcases mem_added added member with member | ⟨rfl, rfl⟩
    · exact staged.own s x member used receiving
    · exact own
  balance state conn p receiving used := by
    have before := staged.balance state conn p receiving used
    rcases inHand_added added state conn used with ⟨grown, same⟩ | ⟨j, grown, more⟩
    · rw [grown, tally_cons, tally_cons, same]
      cases state <;> simpa [enters, leaves, opened, answered, released] using before
    · rw [grown, tally_cons, tally_cons, more]
      rcases receiving with rfl | rfl | rfl
      · have same : (decide (enters .sendpubrec (.enqueued w.socks sock j item) = some (conn, p))).toNat =
            (decide (Of .sendpubrec conn p item)).toNat := by
          simp [enters, opened, Of, first, own, and_comm]
        have silent : leaves .sendpubrec (.enqueued w.socks sock j item) = none := rfl
        rw [same, silent]
        simp only [reduceCtorEq, decide_false, Bool.toNat_false]
        omega
      · simpa [enters, leaves, answered, released, Of, first] using before
      · simpa [enters, leaves, answered, released, Of, first] using before

theorem answered_wrote {kind : Ack} (answers : answerIn item.state = some kind) (kind' : Ack) :
    answered kind' (.wrote sock sockst (kind.encode item.packetId) (some item)) =
      if kind' = kind then some (sockst.tls, item.packetId) else none := by
  rw [answered, answers]
  by_cases same : kind' = kind
  · subst same
    simp
  · have other : some kind ≠ some kind' := fun wrong => same (Option.some.inj wrong).symm
    simp [same, other]

/-- An answer is written for the item, which moves on. -/
theorem written_moves {kind : Ack} {item' : PackidStateItem} (answers : answerIn item.state = some kind)
    (own : item.state.Receiving → item.origin.conn = sockst.tls) (advances : Advances item item')
    {state : PacketState} (receiving : state.Receiving) (used : p ≠ 0) :
    let e := Event.wrote sock sockst (kind.encode item.packetId) (some item)
    (decide (enters state e = some (conn, p))).toNat + (decide (Of state conn p item)).toNat =
      (decide (leaves state e = some (conn, p))).toNat + (decide (Of state conn p item')).toNat := by
  have written := @answered_wrote item sock sockst kind answers
  dsimp only
  cases advances with
  | done states =>
    simp only [List.mem_cons, List.not_mem_nil, or_false] at states
    rcases states with at_state | at_state | at_state <;> rw [at_state] at answers own
    · cases answers
      rcases receiving with rfl | rfl | rfl <;> simp [enters, leaves, written, opened, released, Of, at_state]
    · cases answers
      have own := own (by decide)
      rcases receiving with rfl | rfl | rfl <;>
        simp [enters, leaves, written, opened, released, Of, at_state, own, Ne.symm used, and_comm]
    · cases answers
  | next states =>
    simp only [List.mem_cons, List.not_mem_nil, or_false, Prod.mk.injEq] at states
    rcases states with ⟨at_state, rfl⟩ | ⟨at_state, rfl⟩ | ⟨at_state, rfl⟩ <;> rw [at_state] at answers own
    · cases answers
      have own := own (by decide)
      rcases receiving with rfl | rfl | rfl <;>
        simp [enters, leaves, written, opened, released, Of, at_state, own, and_comm]
    · cases answers
    · cases answers
      rcases receiving with rfl | rfl | rfl <;> simp [enters, leaves, written, opened, released, Of, at_state]

/-- An answer is received for the item, which moves on. -/
theorem acked_moves {item' : PackidStateItem} (waits : item.state = .getpubrel ∨ item.state = .getpubcomp)
    (own : item.packetId ≠ 0 → item.state.Receiving → item.origin.conn = sockst.tls) (advances : Advances item item')
    {state : PacketState} (receiving : state.Receiving) (used : p ≠ 0) :
    let e := Event.acked sock sockst item.packetId item
    (decide (enters state e = some (conn, p))).toNat + (decide (Of state conn p item)).toNat =
      (decide (leaves state e = some (conn, p))).toNat + (decide (Of state conn p item')).toNat := by
  dsimp only
  cases advances with
  | done states =>
    have at_state : item.state = .getpubcomp := by
      rcases waits with at_state | at_state
      · simp [at_state] at states
      · exact at_state
    rcases receiving with rfl | rfl | rfl <;> simp [enters, leaves, answered, opened, released, Of, at_state]
  | next states =>
    have at_state : item.state = .getpubrel := by
      rcases waits with at_state | at_state
      · exact at_state
      · simp [at_state] at states
    simp only [at_state, List.mem_cons, List.not_mem_nil, or_false, Prod.mk.injEq, reduceCtorEq, false_and, true_and,
      false_or, or_false] at states
    subst states
    by_cases live : item.packetId = p
    · have own := own (live ▸ used) (.inr (.inl at_state))
      rcases receiving with rfl | rfl | rfl <;>
        simp [enters, leaves, answered, opened, released, Of, at_state, own, live]
    · rcases receiving with rfl | rfl | rfl <;>
        simp [enters, leaves, answered, opened, released, Of, at_state, live]

theorem kept (act : MessageAct w owed w' owed') (orderly : Lawful Orderly w'.trace) (staged : Staged w) :
    Staged w' := by
  rcases act_part act with ⟨events, grown, others, still, -⟩ | ⟨sock, rfl, -⟩ | ⟨-, rfl, -⟩ | ⟨-, grown, socks, -⟩ |
    ⟨first, -, conn, -, added, -⟩ | ⟨f, at_i, live, answers, advances, rfl, -⟩ | ⟨f, at_i, waits, advances, rfl, -⟩
  · refine staged.silent events grown (fun e member => ?_) still
    obtain ⟨-, -, opens, answers, releases⟩ := (others e member).none
    exact ⟨opens, answers, releases⟩
  · have free := (lawful_cons.mp orderly).1
    refine ⟨fun s x member used receiving => ?_, fun state conn p receiving used => ?_⟩
    · by_cases here : s = sock
      · subst here
        simp only [items, setSock_socks] at member
        exact absurd receiving (free x member used)
      · simp only [items, setSock_other _ _ here] at member ⊢
        exact staged.own s x member used receiving
    · have silent : Staged (w.log (.started sock (w.items sock))) :=
        staged.silent [_] rfl (List.forall_mem_singleton.mpr ⟨rfl, fun _ => rfl, rfl⟩) (still_same rfl fun _ => rfl)
      have same : ({ (w.log (.started sock (w.items sock))).setSock sock ({ · with tls := w.nextTls }) with
          nextTls := w.nextTls + 1 } : World).items = w.items := by
        funext s
        by_cases here : s = sock
        · subst here
          simp only [items, setSock_socks]
          rfl
        · simp only [items, setSock_other _ _ here]
          rfl
      have balance := silent.balance state conn p receiving used
      rw [inHand, same]
      exact balance
  · exact staged.silent [_] rfl (List.forall_mem_singleton.mpr ⟨rfl, fun _ => rfl, rfl⟩)
      (still_same rfl fun _ => rfl)
  · refine staged.silent [_, _] grown (by simp [opened, answered, released])
      (still_same ?_ fun s => by rw [socks])
    funext s
    rw [items, items, socks]
  · exact staged.opened_now first conn added
  · have own := staged.own _ _ (List.mem_of_getElem? at_i) live
    exact staged.moved at_i advances fun state conn p receiving used =>
      Staged.written_moves answers own advances receiving used
  · have own := fun live => staged.own _ _ (List.mem_of_getElem? at_i) live
    exact staged.moved at_i advances fun state conn p receiving used =>
      Staged.acked_moves waits own advances receiving used

end Staged

/-! ### Runs -/

/-- What is distributed for a publisher is what it has just sent. -/
def Prompt : List Event → Prop :=
  Lawful fun earlier e => match e with
    | .distributing publisher topic frame qos packetId => Distributes earlier publisher qos packetId topic frame
    | _ => True

theorem prompt_kept (act : MessageAct w owed w' owed') (prompt : Prompt w.trace) : Prompt w'.trace := by
  have other (events : List Event) (grown : w'.trace = events ++ w.trace) (none : ∀ e ∈ events, ∀ publisher topic
      frame qos packetId, e ≠ .distributing publisher topic frame qos packetId) : Prompt w'.trace := by
    rw [grown]
    refine prompt.append fun e member earlier => ?_
    cases e with
    | distributing => exact absurd rfl (none _ member _ _ _ _ _)
    | _ => trivial
  rcases act_part act with ⟨events, grown, others, -, -⟩ | ⟨sock, rfl, -⟩ | ⟨-, rfl, -⟩ | ⟨distributes, grown, -, -⟩ |
    ⟨-, -, -, -, added, -⟩ | ⟨f, -, -, -, -, rfl, -⟩ | ⟨f, -, -, -, rfl, -⟩
  · refine other events grown fun e member => ?_
    rintro _ _ _ _ _ rfl
    exact others _ member
  · exact other [_] rfl (by simp)
  · exact other [_] rfl (by simp)
  · rw [grown]
    exact lawful_cons.mpr ⟨trivial, lawful_cons.mpr ⟨distributes, prompt⟩⟩
  · rcases trace_added added with ⟨_, grown⟩ | grown <;> exact other [_] grown (by simp)
  · exact other [_] rfl (by simp)
  · exact other [_] rfl (by simp)

/-- What holds along every run. -/
structure Received (w : World) (owed : List Admitted) : Prop where
  prompt : Prompt w.trace
  given : Answered distributed w owed
  inOrder : Lawful Orderly w.trace → Answered opened w owed ∧ Staged w

theorem Received.kept (act : MessageAct w owed w' owed') (received : Received w owed) : Received w' owed' := by
  refine ⟨prompt_kept act received.prompt, ?_, fun orderly => ?_⟩
  · have given := received.given
    rcases act_part act with ⟨events, grown, others, -, stamped⟩ | ⟨sock, rfl, rfl⟩ | ⟨rfl, rfl, unstamped⟩ |
      ⟨distributes, grown, -, none_owed⟩ | ⟨-, -, -, -, added, rfl⟩ | ⟨f, -, -, -, -, rfl, rfl⟩ | ⟨f, -, -, -, rfl, rfl⟩
    · exact given.other events grown
        (fun e member => ⟨other_unaccepted (others e member), (others e member).none.2.1⟩) stamped
    · exact given.other [_] rfl (List.forall_mem_singleton.mpr ⟨not_false, rfl⟩) id
    · exact given.accepted rfl unstamped
    · exact given.distributed_now distributes grown none_owed
    · rcases trace_added added with ⟨_, grown⟩ | grown <;>
        exact given.other [_] grown (List.forall_mem_singleton.mpr ⟨not_false, rfl⟩) id
    · exact given.other [_] rfl (List.forall_mem_singleton.mpr ⟨not_false, rfl⟩) id
    · exact given.other [_] rfl (List.forall_mem_singleton.mpr ⟨not_false, rfl⟩) id
  · have before : Lawful Orderly w.trace := by
      obtain ⟨events, grown⟩ := messageAct_trace act
      rw [grown] at orderly
      exact orderly.before
    obtain ⟨given, staged⟩ := received.inOrder before
    refine ⟨?_, staged.kept act orderly⟩
    rcases act_part act with ⟨events, grown, others, -, stamped⟩ | ⟨sock, rfl, rfl⟩ | ⟨rfl, rfl, unstamped⟩ |
      ⟨distributes, grown, -, none_owed⟩ | ⟨first, two, -, hand, added, rfl⟩ | ⟨f, -, -, -, -, rfl, rfl⟩ |
      ⟨f, -, -, -, rfl, rfl⟩
    · exact given.other events grown
        (fun e member => ⟨other_unaccepted (others e member), (others e member).none.2.2.1⟩) stamped
    · exact given.other [_] rfl (List.forall_mem_singleton.mpr ⟨not_false, rfl⟩) id
    · exact given.accepted rfl unstamped
    · exact given.distributed_after distributes grown none_owed orderly
    · exact given.opened_now first two hand added
    · exact given.other [_] rfl (List.forall_mem_singleton.mpr ⟨not_false, rfl⟩) id
    · exact given.other [_] rfl (List.forall_mem_singleton.mpr ⟨not_false, rfl⟩) id

/-- The events that no message comes or goes with are of no handshake. -/
theorem framed_other {e : Event} (other : ¬ e.OfMessage) : Other e := by
  cases e with
  | wrote _ _ _ item =>
    cases item with
    | none => trivial
    | some => exact absurd trivial other
  | publishing | distributing | started | enqueued | acked => exact absurd trivial other
  | _ => trivial

theorem Received.framed (same : MessagesKept w w') (received : Received w owed) : Received w' owed := by
  obtain ⟨events, grown, others⟩ := same.trace
  have others : ∀ e ∈ events, Other e := fun e member => framed_other (others e member)
  refine ⟨?_, ?_, fun orderly => ?_⟩
  · rw [grown]
    refine received.prompt.append fun e member earlier => ?_
    cases e with
    | distributing => exact absurd (others _ member) id
    | _ => trivial
  · exact received.given.other events grown
      (fun e member => ⟨other_unaccepted (others e member), (others e member).none.2.1⟩) id
  · rw [grown] at orderly
    obtain ⟨given, staged⟩ := received.inOrder orderly.before
    refine ⟨given.other events grown
      (fun e member => ⟨other_unaccepted (others e member), (others e member).none.2.2.1⟩) id, ?_⟩
    refine staged.silent events grown (fun e member => ?_) (still_same same.items same.tls)
    obtain ⟨-, -, opens, answers, releases⟩ := (others e member).none
    exact ⟨opens, answers, releases⟩

theorem received (reachable : Reachable w) : Received w [] := by
  refine reachable.messages (fun _ => True) Received (fun boot => ?_) Received.framed
    (fun act _ => Received.kept act) fun _ _ => trivial
  refine ⟨lawful_nil, ⟨lawful_nil, fun _ => rfl⟩, fun _ => ⟨⟨lawful_nil, fun _ => rfl⟩, ?_, ?_⟩⟩
  · exact fun _ _ member => absurd member List.not_mem_nil
  · intro state conn p _ _
    simp [tally, inHand, initial, items]

/-- A message that is sent once for its client is distributed once. -/
theorem distributed_once (prompt : Prompt trace) (orderly : Lawful Orderly trace) : Once distributedBy trace := by
  -- What is distributed has been accepted just before.
  have just : ∀ late e earlier, trace = late ++ e :: earlier → ∀ clientid p, distributedBy e = some (clientid, p) →
      ∃ middle publish before, earlier = middle ++ publish :: before ∧
        publishedBy publish = some (clientid, p) ∧ ¬ EndedBy clientid p publish ∧ distributedBy publish = none ∧
        ∀ x ∈ middle, ¬ EndedBy clientid p x ∧ distributedBy x = none := by
    intro late e earlier split clientid p distributes
    cases e with
    | distributing publisher topic frame qos packetId =>
      cases publisher with
      | none => cases distributes
      | some sender =>
        obtain ⟨sock, sockst, rfl, middle, before, rfl, quiet⟩ := (prompt late _ earlier split).sent sender rfl
        by_cases two : qos = 2
        · obtain ⟨rfl, rfl⟩ : sockst.clientid = clientid ∧ packetId = p := by
            simpa [distributedBy, two] using distributes
          refine ⟨middle, _, before, rfl, if_pos two, id, rfl, fun x member => ?_⟩
          have reply := quiet x member
          cases x <;> first | exact ⟨id, rfl⟩ | exact absurd reply id
        · rw [distributedBy, if_neg two] at distributes
          cases distributes
    | _ => cases distributes
  intro late e earlier split clientid p distributes since
  obtain ⟨middle, publish, before, rfl, publishes, -, undistributed, quiet⟩ :=
    just late e earlier split clientid p distributes
  rw [List.append_cons] at since
  have since : Unended distributedBy clientid p before := by
    refine since.before (List.forall_mem_append.mpr ⟨fun x member same => ?_, ?_⟩)
    · exact absurd ((quiet x member).2.symm.trans same) nofun
    · exact List.forall_mem_singleton.mpr fun same => absurd (undistributed.symm.trans same) nofun
  have whole : trace = (late ++ e :: middle) ++ publish :: before := by simp [split]
  have sent : Unended publishedBy clientid p before := by
    refine since.mono (fun later e' earlier' split' again => ?_) fun e' again => ?_
    · obtain ⟨middle', publish', before', rfl, publishes', unended, -, quiet'⟩ :=
        just (late ++ e :: middle ++ publish :: later) e' earlier' (by simp [whole, split']) clientid p again
      have now : Unended publishedBy clientid p (publish' :: before') := .now publishes'
      exact now.append fun x member => (quiet' x member).1
    · cases e' <;> first | exact id | cases again
  have afresh := orderly _ publish before whole
  cases publish with
  | publishing sock sockst qos packetId topic frame =>
    by_cases two : qos = 2
    · obtain ⟨rfl, rfl⟩ : sockst.clientid = clientid ∧ packetId = p := by
        simpa [publishedBy, two] using publishes
      exact (afresh two).2.2 sent
    · rw [publishedBy, if_neg two] at publishes
      cases publishes
  | _ => cases publishes

/-- QoS 2 messages are received exactly once: a client's is distributed once
until it is released, and each handshake goes through one PUBREC, one PUBREL and
one PUBCOMP, of which none is left out, with no more than one item until its
PUBREL has come. -/
structure ExactlyOnce (w : World) : Prop where
  fannedOut : Once distributedBy w.trace
  distributed : ∀ conn p, tally published conn p w.trace = tally distributed conn p w.trace
  pubrec : ∀ conn p, p ≠ 0 →
    tally published conn p w.trace = tally (answered .pubrec) conn p w.trace + inHand w .sendpubrec conn p
  pubrel : ∀ conn p, p ≠ 0 →
    tally (answered .pubrec) conn p w.trace = tally released conn p w.trace + inHand w .getpubrel conn p
  pubcomp : ∀ conn p, p ≠ 0 →
    tally released conn p w.trace = tally (answered .pubcomp) conn p w.trace + inHand w .sendpubcomp conn p
  alone : ∀ conn p, tally published conn p w.trace ≤ tally released conn p w.trace + 1
  identified : ∀ conn, tally published conn 0 w.trace = 0
  own : ∀ sock, ∀ item ∈ w.items sock, item.packetId ≠ 0 → item.state.Receiving →
    item.origin.conn = (w.socks sock).tls

/-- In every orderly run QoS 2 messages are received exactly once. -/
theorem received_exactly_once (reachable : Reachable w) (orderly : Lawful Orderly w.trace) : ExactlyOnce w := by
  obtain ⟨prompt, given, inOrder⟩ := received reachable
  obtain ⟨made, staged⟩ := inOrder orderly
  refine ⟨distributed_once prompt orderly, fun conn p => ?_, fun conn p used => ?_, fun conn p => ?_, fun conn p => ?_,
    fun conn p => ?_, fun conn => ?_, staged.own⟩
  · exact given.tally_eq (fun e accepts => by cases e <;> first | rfl | exact absurd accepts id) conn p
  · rw [made.tally_eq (fun e accepts => by cases e <;> first | rfl | exact absurd accepts id) conn p]
    exact staged.balance .sendpubrec conn p (.inl rfl) used
  · exact staged.balance .getpubrel conn p (.inr (.inl rfl))
  · exact staged.balance .sendpubcomp conn p (.inr (.inr rfl))
  · refine (count_since fun late e earlier split start => ?_).1
    cases e with
    | publishing sock sockst qos packetId topic frame =>
      by_cases two : qos = 2
      · obtain ⟨rfl, rfl⟩ : sockst.tls = conn ∧ packetId = p := by simpa [published, two] using start
        exact ⟨nofun, (orderly late _ earlier split two).2.1⟩
      · rw [published, if_neg two] at start
        cases start
    | _ => cases start
  · refine List.countP_eq_zero.mpr fun e member => ?_
    obtain ⟨late, earlier, split⟩ := List.append_of_mem member
    cases e with
    | publishing sock sockst qos packetId topic frame =>
      by_cases two : qos = 2
      · have used := (orderly late _ earlier split two).1
        simp [published, two, used]
      · simp [published, two]
    | _ => simp [published]

/-! ### A message sent once, and one sent again -/

/-- A publisher sends a QoS 2 message and releases it, and then another one with
the same identifier. -/
def sentOnce : List (Message × Env) :=
  [accepting 1, reading 1 (connectPacket [97] 2), reading 1 (publishPacket 0x34 [116] [0, 5, 1]),
    writing 1, reading 1 (some [0x62, 2, 0, 5]), writing 1, reading 1 (publishPacket 0x34 [116] [0, 5, 2]), writing 1]

theorem sent_once_received_once : ∃ w, (initial .clean).run sentOnce = .ok w ∧
    tally published 1 0x500 w.trace = 2 ∧ tally (answered .pubcomp) 1 0x500 w.trace = 1 ∧ ExactlyOnce w := by
  obtain ⟨w, ran, reachable, shown⟩ := reached_run .clean sentOnce (fun w =>
    decide (tally published 1 0x500 w.trace = 2 ∧ tally (answered .pubcomp) 1 0x500 w.trace = 1 ∧
      Lawful Orderly w.trace)) (by decide +kernel)
  obtain ⟨sent, completed, orderly⟩ := of_decide_eq_true shown
  exact ⟨w, ran, sent, completed, received_exactly_once reachable orderly⟩

/-- The publisher sends the message again, marked as a duplicate. -/
def sentAgain : List (Message × Env) :=
  [accepting 1, reading 1 (connectPacket [97] 2), reading 1 (publishPacket 0x34 [116] [0, 5, 1]),
    reading 1 (publishPacket 0x3C [116] [0, 5, 1])]

/-- It then has two handshakes, and has been distributed twice. -/
theorem sent_again_received_twice : ∃ w, (initial .clean).run sentAgain = .ok w ∧ Reachable w ∧
    tally distributed 1 0x500 w.trace = 2 ∧ (w.items 1).map (·.packetId) = [0x500, 0x500] ∧ ¬ ExactlyOnce w := by
  obtain ⟨w, ran, reachable, shown⟩ := reached_run .clean sentAgain (fun w =>
    decide (tally distributed 1 0x500 w.trace = 2 ∧ (w.items 1).map (·.packetId) = [0x500, 0x500] ∧
      tally released 1 0x500 w.trace = 0)) (by decide +kernel)
  obtain ⟨twice, both, unreleased⟩ := of_decide_eq_true shown
  refine ⟨w, ran, reachable, twice, both, fun exactly => ?_⟩
  have sent := exactly.distributed 1 0x500
  have alone := exactly.alone 1 0x500
  omega

end Reception
end MqttBroker
