import MqttBroker.Logic.Traces
import MqttBroker.Worker.Supply

/-! What is retained on a topic. Two tables tell it, the id of the topic and the
message of the id, and the trace tells what it should be: the last PUBLISH with
the RETAIN flag on the topic. -/
namespace MqttBroker.Retention
open Worker World PublishHashmap Ledger Supply Logic

/-- A PUBLISH with the RETAIN flag, as it was accepted. -/
@[ext]
structure Retained where
  packetId : UInt16
  frame : List UInt8
  qos : UInt8
  deriving DecidableEq

def retainedBy (topic : Key) : Event → Option Retained
  | .retain topic' frame qos packetId => if topic' = topic then some ⟨packetId, frame, qos⟩ else none
  | _ => none

/-- The last PUBLISH with the RETAIN flag that was accepted on a topic. -/
def lastRetained (trace : List Event) (topic : Key) : Option Retained := trace.findSome? (retainedBy topic)

/-- The message that a SUBSCRIBE finds through the two tables. -/
def retainedOn (w : World) (topic : Key) : Option (List UInt8 × UInt8) :=
  match w.retainedSubMsg.get topic with
  | .ok (some packetId) => (w.publishMsgStore.get packetId).map fun i => ((w.nodeAt i).data, (w.nodeAt i).qos)
  | _ => none

/-- An item for this message has just come to a socket for a subscription to its
topic, and the node of the message is counted for it. -/
def Delivered (sock : Fin 64) (topic : Key) (m : Retained) (trace : List Event) : Prop :=
  ∃ node socks i item earlier, trace = .counting node :: .enqueued socks sock i item :: earlier ∧
    item.packetId = m.packetId ∧ item.state = .sendpublish ∧ item.deleteRetain = false ∧
    item.origin.topic = topic ∧ node.pubpackId = m.packetId ∧ node.data = m.frame ∧ node.qos = m.qos

/-- A SUBSCRIBE to a topic has a message delivered if and only if it is the last
that was retained on it, and finds that message. -/
def Recalls (earlier : List Event) : Event → Prop
  | .sought sock topic found requested =>
    (∀ m, requested = true ∧ Delivered sock topic m earlier ↔ lastRetained earlier topic = some m) ∧
      found.map (fun node => (node.data, node.qos)) = (lastRetained earlier topic).map fun m => (m.frame, m.qos)
  | _ => True

/-- The id is that of the message retained on some topic. -/
def Claimed (trace : List Event) (x : UInt16) : Prop :=
  ∃ topic m, lastRetained trace topic = some m ∧ m.packetId = x

/-- What may happen to the messages: no retained one has id 0. One that comes
finds room, and is not refused if its id is in the table or retained; an id that is
retained stands for no other message. The table of topics does not grow and
has memory for a new topic, no count goes up from 255, and no delivery of a
retained message is refused by the queue or lost. -/
def Keeps (earlier : List Event) : Event → Prop
  | .retain _ _ _ packetId => packetId ≠ 0
  | .adding _ store x frame qos ok => Room store x ∧ (ok = false → weight store.slots x = 0) ∧
      (Claimed earlier x → ok = true ∧ Carries store.slots x frame qos)
  | .keeping retained topic ok => ok = true ∧ ¬ retained.Crowded topic
  | .counting node => node.count ≠ 255
  | .lost item => item.deleteRetain = true
  | .sought _ _ found requested => found.isSome → requested = true
  | _ => True

/-! ### The trace -/

section Trace
variable {trace late : List Event} {topic : Key} {e : Event}

/-- The event retains nothing and recalls nothing. -/
def Mute : Event → Prop
  | .retain .. | .sought .. => False
  | _ => True

theorem Mute.retainedBy (mute : Mute e) (topic : Key) : Retention.retainedBy topic e = none := by
  cases e <;> first | rfl | exact mute.elim

theorem Mute.recalls (mute : Mute e) (earlier : List Event) : Recalls earlier e := by
  cases e <;> first | exact trivial | exact mute.elim

theorem lastRetained_mute (mute : ∀ e ∈ late, Mute e) (topic : Key) :
    lastRetained (late ++ trace) topic = lastRetained trace topic := by
  have none : late.findSome? (retainedBy topic) = none :=
    List.findSome?_eq_none_iff.mpr fun e member => (mute e member).retainedBy topic
  rw [lastRetained, List.findSome?_append, none]
  rfl

theorem lastRetained_retain {topic' : Key} {frame : List UInt8} {qos : UInt8} {packetId : UInt16} :
    lastRetained (.retain topic' frame qos packetId :: trace) topic =
      if topic' = topic then some ⟨packetId, frame, qos⟩ else lastRetained trace topic := by
  by_cases same : topic' = topic <;> simp [lastRetained, retainedBy, same]

theorem lawful_mute (lawful : Lawful Recalls trace) (mute : ∀ e ∈ late, Mute e) : Lawful Recalls (late ++ trace) :=
  lawful.append fun e member earlier => (mute e member).recalls earlier

end Trace

/-! ### One step -/

/-- The tables tell what is retained as the trace does, in the middle of a turn
too. -/
structure Remembered (w : World) : Prop where
  table : ∀ topic, w.retainedSubMsg.get topic = .ok ((lastRetained w.trace topic).map Retained.packetId)
  used : ∀ topic m, lastRetained w.trace topic = some m → m.packetId ≠ 0
  carries : ∀ topic m, lastRetained w.trace topic = some m →
    Carries w.publishMsgStore.slots m.packetId m.frame m.qos
  recalls : Lawful Recalls w.trace

section Steps
variable {w w₁ w' : World} {owed owed' : List Admitted} {sock : Fin 64} {item : PackidStateItem} {i : Nat}
  {x : UInt16} {topic : Key} {m : Retained} {late : List Event} {f : PackidStateItem → PackidStateItem}
  {frame : List UInt8} {qos count : UInt8} {heap : Heap}

theorem added_mute (added : ItemAdded w sock item w') :
    ∃ e, w'.trace = e :: w.trace ∧ Mute e ∧
      ((∃ j, e = .enqueued w.socks sock j item) ∨ e = .lost item) := by
  rcases at_added added with ⟨grown, -⟩ | ⟨j, grown, -⟩
  · exact ⟨_, grown, trivial, .inr rfl⟩
  · exact ⟨_, grown, trivial, .inl ⟨j, rfl⟩⟩

theorem Keeps.provides {earlier : List Event} {e : Event} (keeps : Keeps earlier e) : Provides e := by
  cases e with
  | adding => exact ⟨keeps.1, keeps.2.1⟩
  | counting => exact keeps
  | _ => trivial

theorem provides_of_keeps (keeps : Lawful Keeps w.trace) : ∀ e ∈ w.trace, Provides e := by
  intro e member
  obtain ⟨late, earlier, split⟩ := List.append_of_mem member
  exact (keeps late e earlier split).provides

namespace Remembered

/-- What is retained on a topic is needed for it. -/
theorem heavy (remembered : Remembered w) (supplied : Supplied w owed) (last : lastRetained w.trace topic = some m) :
    weight w.publishMsgStore.slots m.packetId ≠ 0 := by
  have got := remembered.table topic
  rw [last] at got
  have member := supplied.sound.get_some.mp got
  have positive : kept w m.packetId ≠ 0 := by
    rw [kept, Ne, List.countP_eq_zero]
    intro none
    exact none _ member (decide_eq_true rfl)
  have enough := supplied.covered.enough _ (remembered.used topic m last)
  rw [need] at enough
  omega

/-- A step that retains nothing and recalls nothing. -/
theorem mute (remembered : Remembered w) (late : List Event) (retained : w'.retainedSubMsg = w.retainedSubMsg)
    (grown : w'.trace = late ++ w.trace) (mute : ∀ e ∈ late, Mute e)
    (carries : ∀ topic m, lastRetained w.trace topic = some m →
      Carries w'.publishMsgStore.slots m.packetId m.frame m.qos) : Remembered w' := by
  have last (topic : Key) : lastRetained w'.trace topic = lastRetained w.trace topic := by
    rw [grown, lastRetained_mute mute]
  constructor
  · intro topic
    rw [retained, last]
    exact remembered.table topic
  · intro topic m retained
    exact remembered.used topic m ((last topic).symm.trans retained)
  · intro topic m retained
    exact carries topic m ((last topic).symm.trans retained)
  · rw [grown]
    exact lawful_mute remembered.recalls mute

/-- The same, with the messages as they are. -/
theorem still (remembered : Remembered w) (late : List Event) (store : w'.publishMsgStore = w.publishMsgStore)
    (retained : w'.retainedSubMsg = w.retainedSubMsg) (grown : w'.trace = late ++ w.trace)
    (mute : ∀ e ∈ late, Mute e) : Remembered w' := by
  refine remembered.mute late retained grown mute fun topic m last => ?_
  rw [store]
  exact remembered.carries topic m last

theorem log (remembered : Remembered w) {e : Event} (mute : Mute e) : Remembered (w.log e) :=
  remembered.still [e] rfl rfl rfl (List.forall_mem_singleton.mpr mute)

/-- A message is counted down. -/
theorem forget (remembered : Remembered w)
    (placed : Placed w.publishMsgStore.powerOfCap w.publishMsgStore.slots) (x : UInt16) : Remembered (w.forget x) :=
  remembered.mute _ (forget_retained w x) (forget_trace x)
    (fun e member => by obtain ⟨node, rfl⟩ := mem_forgotten member; trivial)
    fun topic m last => carries_forget (remembered.carries topic m last) placed (remembered.used topic m last) x

/-- A message comes to the table that is not a retained one. -/
theorem stored (remembered : Remembered w) (supplied : Supplied w owed) (counted : count ≠ 0)
    (keeps : Keeps w.trace (.adding w.socks w.publishMsgStore x frame qos
      (w.publishMsgStore.add x frame qos count heap).1)) : Remembered (w.stored x frame qos count heap) := by
  refine remembered.mute [_] rfl rfl (List.forall_mem_singleton.mpr trivial) fun topic m last => ?_
  refine supplied.covered.carries_add keeps.1 counted heap (remembered.carries topic m last)
    (remembered.used topic m last) (remembered.heavy supplied last) fun same => ?_
  exact (keeps.2.2 ⟨topic, m, last, same.symm⟩).2

/-- An item for a message is added, and its message counted for it. -/
theorem enqueue (remembered : Remembered w) (supplied : Supplied w owed) (added : ItemAdded w sock item w₁)
    (found : w.publishMsgStore.get item.packetId = some i) : Remembered (w₁.countUp i) := by
  obtain ⟨store, -, retained⟩ := itemAdded_frame added
  obtain ⟨e, grown, mute, -⟩ := added_mute added
  have counted : (w₁.countUp i).publishMsgStore = (w.countUp i).publishMsgStore := by
    simp only [World.countUp, nodeAt, store]
  refine remembered.mute [.counting (w₁.nodeAt i), e] retained (by simp [World.countUp, World.log, grown])
    (List.forall_mem_cons.mpr ⟨trivial, List.forall_mem_singleton.mpr mute⟩) fun topic m last => ?_
  rw [counted]
  exact (remembered.carries topic m last).recount supplied.covered.placed found (remembered.used topic m last) _

/-! A message with the RETAIN flag. -/

/-- A topic has a new message. -/
theorem retain (remembered : Remembered w) (late : List Event) (used : x ≠ 0)
    (grown : w'.trace = late ++ .retain topic frame qos x :: w.trace) (mute : ∀ e ∈ late, Mute e)
    (table : ∀ other, w'.retainedSubMsg.get other =
      if other = topic then .ok (some x) else w.retainedSubMsg.get other)
    (new : Carries w'.publishMsgStore.slots x frame qos)
    (old : ∀ topic m, lastRetained w.trace topic = some m →
      Carries w'.publishMsgStore.slots m.packetId m.frame m.qos) : Remembered w' := by
  have last (other : Key) : lastRetained w'.trace other =
      if topic = other then some ⟨x, frame, qos⟩ else lastRetained w.trace other := by
    rw [grown, lastRetained_mute mute, lastRetained_retain]
  refine ⟨fun other => ?_, fun other m retained => ?_, fun other m retained => ?_, ?_⟩
  · rw [table, last]
    by_cases same : other = topic
    · rw [if_pos same, if_pos same.symm]
      rfl
    · rw [if_neg same, if_neg (Ne.symm same)]
      exact remembered.table other
  · rw [last] at retained
    split at retained
    · cases retained
      exact used
    · exact remembered.used other m retained
  · rw [last] at retained
    split at retained
    · cases retained
      exact new
    · exact old other m retained
  · rw [grown]
    exact lawful_mute (lawful_cons.mpr ⟨trivial, remembered.recalls⟩) mute

/-- The new message is stored, and what the other topics have stays. -/
theorem entered (remembered : Remembered w) (supplied : Supplied w owed)
    (keeps : Keeps (.retain topic frame qos x :: w.trace) (.adding w.socks w.publishMsgStore x frame qos
      (w.publishMsgStore.add x frame qos 2 heap).1)) :
    (w.publishMsgStore.add x frame qos 2 heap).1 = true ∧
      Carries (w.publishMsgStore.add x frame qos 2 heap).2.1.slots x frame qos ∧
      ∀ topic m, lastRetained w.trace topic = some m →
        Carries (w.publishMsgStore.add x frame qos 2 heap).2.1.slots m.packetId m.frame m.qos := by
  have two : (2 : UInt8) ≠ 0 := by decide
  obtain ⟨room, -, claimed⟩ := keeps
  obtain ⟨ok, carries⟩ := claimed ⟨topic, ⟨x, frame, qos⟩, by rw [lastRetained_retain, if_pos rfl], rfl⟩
  have covered := supplied.covered
  refine ⟨ok, carries_added carries covered.placed covered.findable.bounded room two heap, fun other m last => ?_⟩
  exact covered.carries_add room two heap (remembered.carries other m last) (remembered.used other m last)
    (remembered.heavy supplied last) fun _ => carries

theorem retainNew (remembered : Remembered w) (supplied : Supplied w owed) {before after : Heap}
    {ok : Bool} {retained : Myhashmap UInt16} (fresh : w.retainedSubMsg.get topic = .ok none)
    (added : w.retainedSubMsg.add topic x before = .ok (ok, retained, after)) (used : x ≠ 0)
    (keeps : Keeps (.retain topic frame qos x :: w.trace) (.adding w.socks w.publishMsgStore x frame qos
      (w.publishMsgStore.add x frame qos 2 heap).1))
    (roomy : ok = true ∧ ¬ w.retainedSubMsg.Crowded topic) :
    Remembered { (((w.log (.retain topic frame qos x)).stored x frame qos 2 heap).log (.retaining x)).log
      (.keeping w.retainedSubMsg topic ok) with retainedSubMsg := retained } := by
  obtain ⟨-, new, old⟩ := remembered.entered supplied keeps
  obtain ⟨result, ends, how⟩ := Myhashmap.add_ends supplied.sound.buckets supplied.sound.unsized topic x before
  obtain rfl := Except.ok.inj (ends.symm.trans added)
  cases how with
  | refused => cases roomy.1
  | emptied _ crowded => exact absurd crowded roomy.2
  | appended =>
    exact remembered.retain [_, _, _] used rfl (by simp [Mute])
      (fun other => Myhashmap.get_appended supplied.sound.buckets fresh) new old

theorem retainReplace (remembered : Remembered w) (supplied : Supplied w owed) {old : UInt16}
    (held : w.retainedSubMsg.get topic = .ok (some old)) (used : x ≠ 0)
    (keeps : Keeps (.retain topic frame qos x :: w.trace) (.adding w.socks w.publishMsgStore x frame qos
      (w.publishMsgStore.add x frame qos 2 heap).1)) :
    Remembered { (((w.log (.retain topic frame qos x)).stored x frame qos 2 heap).log (.retaining x)).forget old with
      retainedSubMsg := w.retainedSubMsg.rewritten topic x } := by
  obtain ⟨ok, new, others⟩ := remembered.entered supplied keeps
  let entered := ((w.log (.retain topic frame qos x)).stored x frame qos 2 heap).log (.retaining x)
  have placed : Placed entered.publishMsgStore.powerOfCap entered.publishMsgStore.slots :=
    (supplied.entered keeps.1 ok).placed
  have grown : (entered.forget old).trace = (entered.forgotten old ++ [.retaining x, .adding w.socks
      w.publishMsgStore x frame qos (w.publishMsgStore.add x frame qos 2 heap).1]) ++
      .retain topic frame qos x :: w.trace := forget_grown [_, _] rfl
  have mute : ∀ e ∈ entered.forgotten old ++ [.retaining x, .adding w.socks w.publishMsgStore x frame qos
      (w.publishMsgStore.add x frame qos 2 heap).1], Mute e := forgotten_all (fun _ => trivial) (by simp [Mute])
  exact remembered.retain _ used grown mute (fun other => Myhashmap.get_rewritten supplied.sound.buckets held)
    (carries_forget new placed used old)
    fun other m last => carries_forget (others other m last) placed (remembered.used other m last) old

/-! The subscribers. -/

/-- What is retained on a topic is found. -/
theorem last_found (remembered : Remembered w) (supplied : Supplied w owed)
    (last : lastRetained w.trace topic = some m) : ∃ i, w.publishMsgStore.get m.packetId = some i :=
  found_of_weight supplied.covered.placed (remembered.heavy supplied last)

theorem found_last (remembered : Remembered w) (supplied : Supplied w owed)
    (held : w.retainedSubMsg.get topic = .ok (some x)) (found : w.publishMsgStore.get x = some i) :
    ∃ m, lastRetained w.trace topic = some m ∧ m.packetId = x ∧ (w.nodeAt i).data = m.frame ∧
      (w.nodeAt i).qos = m.qos := by
  have table := remembered.table topic
  rw [held, Except.ok.injEq] at table
  obtain ⟨m, last, rfl⟩ := Option.map_eq_some_iff.mp table.symm
  exact ⟨m, last, rfl, (remembered.carries topic m last).found supplied.covered.placed found
    (remembered.used topic m last)⟩

/-- A subscriber has asked. -/
theorem sought (remembered : Remembered w) {found : Option NodePubmap} {requested : Bool}
    (recalls : Recalls w.trace (.sought sock topic found requested)) :
    Remembered (w.log (.sought sock topic found requested)) :=
  ⟨remembered.table, remembered.used, remembered.carries, lawful_cons.mpr ⟨recalls, remembered.recalls⟩⟩

theorem unknown (remembered : Remembered w) (supplied : Supplied w owed)
    (absent : ∀ x, w.retainedSubMsg.get topic = .ok (some x) → w.publishMsgStore.get x = none) :
    Remembered (w.log (.sought sock topic none false)) := by
  have none : lastRetained w.trace topic = none := by
    refine Option.eq_none_iff_forall_ne_some.mpr fun m last => ?_
    obtain ⟨i, found⟩ := remembered.last_found supplied last
    have gone := absent m.packetId (by rw [remembered.table, last]; rfl)
    rw [found] at gone
    cases gone
  exact remembered.sought ⟨by simp [none], by simp [none]⟩

theorem deliver (remembered : Remembered w) (supplied : Supplied w owed) (added : ItemAdded w sock item w₁)
    (held : w.retainedSubMsg.get topic = .ok (some item.packetId))
    (found : w.publishMsgStore.get item.packetId = some i) (fresh : item.state = .sendpublish)
    (retained : item.deleteRetain = false) (origin : item.origin.topic = topic)
    (keeps : Lawful Keeps (w₁.countUp i).trace) :
    Remembered ((w₁.countUp i).log (.sought sock topic (some (w.nodeAt i)) true)) := by
  obtain ⟨m, last, named, data, qos⟩ := remembered.found_last supplied held found
  have counted := remembered.enqueue supplied added found
  obtain ⟨e, grown, mute, came⟩ := added_mute added
  have trace : (w₁.countUp i).trace = [.counting (w₁.nodeAt i), e] ++ w.trace := by
    simp only [World.countUp, World.log, grown, List.cons_append, List.nil_append]
  have mutes : ∀ e' ∈ [.counting (w₁.nodeAt i), e], Mute e' :=
    List.forall_mem_cons.mpr ⟨trivial, List.forall_mem_singleton.mpr mute⟩
  have still : lastRetained (w₁.countUp i).trace topic = some m := by
    rw [trace, lastRetained_mute mutes, last]
  have node : w₁.nodeAt i = w.nodeAt i := by
    obtain ⟨store, -, -⟩ := itemAdded_frame added
    rw [nodeAt, store]
    rfl
  have id : (w.nodeAt i).pubpackId = m.packetId :=
    (get_id supplied.covered.placed found).trans named.symm
  refine counted.sought ⟨fun other => ?_, by rw [still, Option.map_some, Option.map_some, data, qos]⟩
  rw [still, Option.some.injEq]
  constructor
  · -- the node that was counted tells which message it is
    rintro ⟨-, counted, socks, j, item', earlier, same, -, -, -, -, id', data', qos'⟩
    rw [trace, List.cons_append] at same
    obtain rfl : w₁.nodeAt i = _ := Event.counting.inj (List.cons.inj same).1
    rw [node] at id' data' qos'
    exact Retained.ext (id.symm.trans id') (data.symm.trans data') (qos.symm.trans qos')
  · rintro rfl
    refine ⟨rfl, ?_⟩
    rcases came with ⟨j, rfl⟩ | rfl
    · exact ⟨_, _, j, item, w.trace, trace, named.symm, fresh, retained, origin, node ▸ id, node ▸ data, node ▸ qos⟩
    · have before := (lawful_cons.mp keeps).2
      rw [grown] at before
      have kept : item.deleteRetain = true := (lawful_cons.mp before).1
      rw [retained] at kept
      cases kept

end Remembered

theorem remembered_act (act : MessageAct w owed w' owed') (keeps : Lawful Keeps w'.trace) (supplied : Supplied w owed)
    (remembered : Remembered w) : Remembered w' := by
  have one : (1 : UInt8) ≠ 0 := by decide
  have here {e : Event} {trace : List Event} (keeps : Lawful Keeps (e :: trace)) := (lawful_cons.mp keeps).1
  cases act with
  | start | accept | send | matched | resend =>
    exact remembered.still [_] rfl rfl rfl (List.forall_mem_singleton.mpr trivial)
  | enter m qos heap =>
    have distributed := remembered.log (e := .distributing m.publisher m.topic m.frame qos m.packetId) trivial
    exact distributed.stored (supplied.same rfl rfl rfl) one (here keeps)
  | @refuse w packetId topic frame qos heap publisher =>
    have distributed := remembered.log (e := .distributing publisher topic frame qos packetId) trivial
    exact distributed.stored (supplied.same rfl rfl rfl) one (here keeps)
  | readd packetId y frame qos heap found same absent =>
    exact absurd absent (no_readd supplied.covered.findable found same)
  | enqueue m qos _ _ _ _ _ _ added found => exact remembered.enqueue supplied added found
  | retire m stamped found =>
    refine remembered.mute [_] rfl rfl (List.forall_mem_singleton.mpr trivial) fun topic last retained => ?_
    exact (remembered.carries topic last retained).countedDown supplied.covered.placed found
      (remembered.used topic last retained)
  | retainRefused packetId topic frame qos heap refused =>
    obtain ⟨ok, -⟩ := remembered.entered supplied (here keeps)
    rw [refused] at ok
    cases ok
  | retainNew packetId frame qos heap _ fresh added =>
    obtain ⟨roomy, keeps⟩ := lawful_cons.mp keeps
    obtain ⟨adding, keeps⟩ := lawful_cons.mp (lawful_cons.mp keeps).2
    exact remembered.retainNew supplied fresh added (here keeps) adding roomy
  | @retainReplace w owed packetId frame qos heap topic old _ held =>
    have before : Lawful Keeps (.retaining packetId :: .adding w.socks w.publishMsgStore packetId frame qos
        (w.publishMsgStore.add packetId frame qos 2 heap).1 :: .retain topic frame qos packetId :: w.trace) := by
      have grown := forget_trace (w := ((w.log (.retain topic frame qos packetId)).stored packetId frame qos 2
        heap).log (.retaining packetId)) old
      exact Lawful.before (grown ▸ keeps)
    obtain ⟨adding, before⟩ := lawful_cons.mp (lawful_cons.mp before).2
    exact remembered.retainReplace supplied held (here before) adding
  | deliver sock qos held found added =>
    exact remembered.deliver supplied added held found rfl rfl rfl (lawful_cons.mp keeps).2
  | unheard sock held found =>
    have requested := here keeps rfl
    cases requested
  | unknown sock topic absent => exact remembered.unknown supplied absent
  | incoming sock kind _ _ added =>
    obtain ⟨store, -, retained⟩ := itemAdded_frame added
    obtain ⟨e, grown, mute, -⟩ := added_mute added
    exact remembered.still [e] store retained grown (List.forall_mem_singleton.mpr mute)
  | reply | answer => exact remembered.still [_] rfl rfl rfl (List.forall_mem_singleton.mpr trivial)
  | await => exact remembered.still [] rfl rfl rfl (List.forall_mem_nil _)
  | @release w owed sock i item packetId f =>
    have written : Remembered (w.setItem sock i f) := remembered.still [] rfl rfl rfl (List.forall_mem_nil _)
    exact written.forget supplied.covered.placed packetId
  | @abandon w owed sock i j item =>
    have written : Remembered ((w.log (.unsent item)).setItem sock i ({ · with packetId := 0 })) :=
      remembered.still [_] rfl rfl rfl (List.forall_mem_singleton.mpr trivial)
    exact written.forget supplied.covered.placed _

end Steps

/-! ### Runs -/

theorem remembered_initial (boot : Boot) : Remembered (initial boot) := by
  have nothing (topic : Key) : lastRetained (initial boot).trace topic = none := rfl
  refine ⟨fun topic => ?_, fun topic m last => ?_, fun topic m last => ?_, lawful_nil⟩
  · rw [nothing]
    refine (Myhashmap.sound_ofCapacity (α := UInt16) Nat.one_pos).get_none.mpr fun node member => ?_
    rw [Myhashmap.nodes_ofCapacity] at member
    cases member
  · rw [nothing] at last
    cases last
  · rw [nothing] at last
    cases last

theorem reached_remembered {w : World} (reachable : Reachable w) (keeps : Lawful Keeps w.trace) :
    Supplied w [] ∧ Remembered w :=
  reachable.messages (fun _ => True) (fun w owed => Lawful Keeps w.trace → Supplied w owed ∧ Remembered w)
    (fun boot _ => ⟨supplied_initial boot, remembered_initial boot⟩)
    (fun same held keeps => by
      obtain ⟨late, grown, others⟩ := same.trace
      obtain ⟨supplied, remembered⟩ := held (Lawful.before (grown ▸ keeps))
      refine ⟨supplied.same same.store same.retained same.items,
        remembered.still late same.store same.retained grown fun e member => ?_⟩
      have other := others e member
      cases e <;> first | exact trivial | exact absurd trivial other)
    (fun act _ held keeps => by
      obtain ⟨late, grown⟩ := messageAct_trace act
      obtain ⟨supplied, remembered⟩ := held (Lawful.before (grown ▸ keeps))
      exact ⟨supplied_act act (provides_of_keeps keeps) supplied, remembered_act act keeps supplied remembered⟩)
    (fun _ _ => trivial) keeps

/-- In a run that keeps the conditions, what is retained on each topic is the last
PUBLISH with the RETAIN flag on it, with its bytes and its QoS, and every SUBSCRIBE
to the topic has it delivered. -/
theorem last_retained_recalled {w : World} (reachable : Reachable w) (keeps : Lawful Keeps w.trace) :
    Lawful Recalls w.trace ∧
      ∀ topic, retainedOn w topic = (lastRetained w.trace topic).map fun m => (m.frame, m.qos) := by
  obtain ⟨supplied, remembered⟩ := reached_remembered reachable keeps
  refine ⟨remembered.recalls, fun topic => ?_⟩
  rw [retainedOn, remembered.table]
  cases last : lastRetained w.trace topic with
  | none => rfl
  | some m =>
    obtain ⟨i, found⟩ := remembered.last_found supplied last
    obtain ⟨data, qos⟩ := (remembered.carries topic m last).found supplied.covered.placed found
      (remembered.used topic m last)
    simp only [Option.map_some, found]
    rw [nodeAt, data, qos]

/-- The conditions on one event where no id is used twice. -/
def Plain : Event → Prop
  | .adding _ store x frame qos ok => Room store x ∧ ok = true ∧ Carries store.slots x frame qos
  | e => Keeps [] e

instance : DecidablePred Plain := fun e => by
  rcases e with ⟨⟩ <;> dsimp only [Plain, Keeps, Myhashmap.Crowded, Carries] <;> infer_instance

theorem Plain.keeps {e : Event} (plain : Plain e) (earlier : List Event) : Keeps earlier e := by
  cases e with
  | adding socks store x frame qos ok =>
    obtain ⟨room, rfl, carries⟩ := plain
    exact ⟨room, fun refused => absurd refused (by decide), fun _ => ⟨rfl, carries⟩⟩
  | _ => exact plain

/-- A message of QoS 1 is retained, and another client subscribes to its topic. -/
def retaining : List (Message × Env) :=
  [accepting 1, reading 1 (connectPacket [97] 2), reading 1 (some (publishPacket 0x33 [116] [5, 0, 9])),
    accepting 2, reading 2 (connectPacket [98] 2), subscribing 2 [116] 2]

/-- Nothing is retained on another topic. -/
example : ((initial .clean).run retaining).toOption.any (fun w => (retainedOn w [117]).isNone) = true := by
  decide +kernel

theorem subscriber_recalls : ∃ w, Reachable w ∧ Lawful Recalls w.trace ∧
    retainedOn w [116] = some (publishPacket 0x33 [116] [5, 0, 9], 1) := by
  obtain ⟨w, -, reachable, shown⟩ := reached_run .clean retaining
    (fun w => decide (∀ e ∈ w.trace, Plain e) &&
      decide (lastRetained w.trace [116] = some ⟨5, publishPacket 0x33 [116] [5, 0, 9], 1⟩)) (by decide +kernel)
  simp only [Bool.and_eq_true, decide_eq_true_eq] at shown
  obtain ⟨plain, last⟩ := shown
  have keeps : Lawful Keeps w.trace := fun late e earlier split =>
    (plain e (split ▸ List.mem_append_right late List.mem_cons_self)).keeps earlier
  obtain ⟨recalls, retained⟩ := last_retained_recalled reachable keeps
  exact ⟨w, reachable, recalls, by rw [retained, last]; rfl⟩

end MqttBroker.Retention
