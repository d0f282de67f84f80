import MqttBroker.Logic.Traces
import MqttBroker.Worker.Runs

/-! What a step does to the items of the sockets. -/
namespace MqttBroker.World
open Logic Worker

variable {w w₁ w' : World} {sock other : Fin 64} {item : PackidStateItem} {i : Nat}
  {f : PackidStateItem → PackidStateItem}

theorem items_setItem : (w.setItem sock i f).items sock = (w.items sock).modify i f := by
  simp only [items, setItem, setSock_socks]

theorem items_setItem_other (different : other ≠ sock) :
    (w.setItem sock i f).items other = w.items other := by
  simp only [items, setItem, setSock_other _ _ different]

theorem at_setItem (at_i : (w.items sock)[i]? = some item) :
    ((w.setItem sock i f).items sock)[i]? = some (f item) := by
  rw [items_setItem, List.getElem?_modify, at_i]
  simp

theorem tls_setItem (s : Fin 64) : ((w.setItem sock i f).socks s).tls = (w.socks s).tls := by
  by_cases here : s = sock
  · subst here
    simp only [setItem, setSock_socks]
  · simp only [setItem, setSock_other _ _ here]

/-- The item at an index is changed, or it is one that was there. -/
theorem mem_setItem (at_i : (w.items sock)[i]? = some item) {s : Fin 64} {x : PackidStateItem}
    (member : x ∈ (w.setItem sock i f).items s) : x ∈ w.items s ∨ s = sock ∧ x = f item := by
  by_cases here : s = sock
  · subst here
    rw [items_setItem] at member
    obtain ⟨j, at_j⟩ := List.mem_iff_getElem?.mp member
    rw [List.getElem?_modify] at at_j
    by_cases same : i = j
    · subst same
      rw [at_i] at at_j
      simp at at_j
      exact .inr ⟨rfl, at_j.symm⟩
    · simp [same] at at_j
      exact .inl (List.mem_of_getElem? at_j)
  · rw [items_setItem_other here] at member
    exact .inl member

theorem tls_added (added : ItemAdded w sock item w') (s : Fin 64) :
    (w'.socks s).tls = (w.socks s).tls := by
  cases added with
  | reused => exact tls_setItem s
  | pushed =>
    by_cases here : s = sock
    · subst here
      simp only [setSock_socks]
      rfl
    · simp only [setSock_other _ _ here]
      rfl
  | lost => rfl

/-- The items after one was added: those that were there, and it. -/
theorem mem_added (added : ItemAdded w sock item w') {s : Fin 64} {x : PackidStateItem}
    (member : x ∈ w'.items s) : x ∈ w.items s ∨ s = sock ∧ x = item := by
  cases added with
  | reused at_i => exact mem_setItem at_i member
  | pushed =>
    by_cases here : s = sock
    · subst here
      simp only [items, setSock_socks, List.mem_append, List.mem_singleton] at member
      exact member.imp_right fun same => ⟨rfl, same⟩
    · simp only [items, setSock_other _ _ here] at member
      exact .inl member
  | lost => exact .inl member

theorem at_concat {α : Type} {l : List α} {a x : α} {k : Nat} (at_k : (l ++ [a])[k]? = some x) :
    l[k]? = some x ∨ k = l.length ∧ x = a := by
  rcases Nat.lt_trichotomy k l.length with inside | rfl | outside
  · rw [List.getElem?_append_left inside] at at_k
    exact .inl at_k
  · rw [List.getElem?_concat_length] at at_k
    exact .inr ⟨rfl, (Option.some.inj at_k).symm⟩
  · rw [List.getElem?_eq_none] at at_k
    · cases at_k
    · rw [List.length_append, List.length_singleton]
      exact outside

/-- The slots after an item was added: as before, but for the one the item is
reported to have come to. -/
theorem at_added (added : ItemAdded w sock item w') :
    w'.trace = .lost item :: w.trace ∧ w'.items = w.items ∨
      ∃ j, w'.trace = .enqueued w.socks sock j item :: w.trace ∧ ∀ s (k : Nat) x,
        (w'.items s)[k]? = some x → (w.items s)[k]? = some x ∨ s = sock ∧ k = j ∧ x = item := by
  cases added with
  | lost => exact .inl ⟨rfl, rfl⟩
  | @reused i old at_i =>
    refine .inr ⟨i, rfl, fun s k x at_k => ?_⟩
    by_cases here : s = sock
    · subst here
      by_cases same : k = i
      · subst same
        have now : ((w.setItem s k fun _ => item).items s)[k]? = some item := at_setItem at_i
        exact .inr ⟨rfl, rfl, Option.some.inj (at_k.symm.trans now)⟩
      · rw [items_setItem, List.getElem?_modify_ne _ _ (Ne.symm same)] at at_k
        exact .inl at_k
    · rw [items_setItem_other here] at at_k
      exact .inl at_k
  | pushed env capacity =>
    refine .inr ⟨_, rfl, fun s k x at_k => ?_⟩
    by_cases here : s = sock
    · subst here
      simp only [items, setSock_socks] at at_k
      rcases at_concat at_k with at_k | ⟨rfl, rfl⟩
      · exact .inl at_k
      · exact .inr ⟨rfl, rfl, rfl⟩
    · simp only [items, setSock_other _ _ here] at at_k
      exact .inl at_k

@[simp] theorem forget_socks (packetId : UInt16) : (w.forget packetId).socks = w.socks := by
  unfold World.forget
  split <;> rfl

@[simp] theorem forget_items (packetId : UInt16) : (w.forget packetId).items = w.items :=
  funext fun sock => by rw [items, items, forget_socks]

/-- What is reported of a count that goes down. -/
def forgotten (w : World) (packetId : UInt16) : List Event :=
  match w.publishMsgStore.get packetId with
  | some i => [.uncounting (w.nodeAt i)]
  | none => []

theorem mem_forgotten {packetId : UInt16} {e : Event} (member : e ∈ w.forgotten packetId) :
    ∃ node, e = .uncounting node := by
  unfold forgotten at member
  split at member
  · exact ⟨_, List.mem_singleton.mp member⟩
  · cases member

theorem forget_trace (packetId : UInt16) :
    (w.forget packetId).trace = w.forgotten packetId ++ w.trace := by
  unfold World.forget forgotten
  cases w.publishMsgStore.get packetId <;> rfl

theorem forget_grown {trace : List Event} {packetId : UInt16} (events : List Event)
    (grown : w.trace = events ++ trace) :
    (w.forget packetId).trace = (w.forgotten packetId ++ events) ++ trace := by
  rw [forget_trace, grown, List.append_assoc]

theorem forgotten_all {P : Event → Prop} {events : List Event} {packetId : UInt16}
    (counts : ∀ node, P (.uncounting node)) (holds : ∀ e ∈ events, P e) :
    ∀ e ∈ w.forgotten packetId ++ events, P e := by
  refine List.forall_mem_append.mpr ⟨fun e member => ?_, holds⟩
  obtain ⟨node, rfl⟩ := mem_forgotten member
  exact counts node

/-- What one step makes of an item. -/
inductive ItemStep (w w' : World) (sock : Fin 64) (item : PackidStateItem) : PackidStateItem → Prop
  | advanced {item' : PackidStateItem} : Advances item item' → ItemStep w w' sock item item'
  | awaited {qos : UInt8} : item.state.Counted → Written w.trace sock item → SentAs w item qos → qos ≠ 0 →
      ItemStep w w' sock item { item with state := if qos = 1 then .getpuback else .getpubrec }
  | released {item' : PackidStateItem} : item.state.Counted → Releases w sock item item' →
      ItemStep w w' sock item item'
  | abandoned : item.state.Counted → Written w.trace sock item →
      (∃ late, w'.trace = late ++ .unsent item :: w.trace) →
      ItemStep w w' sock item { item with packetId := 0 }

/-- No step puts an item back before its first write. -/
theorem ItemStep.not_fresh {item' : PackidStateItem} (step : ItemStep w w' sock item item')
    (used : item'.packetId ≠ 0) : item'.state ≠ .sendpublish := by
  cases step with
  | advanced advances =>
    intro fresh
    exact advances.kept.2.1 (.inl fresh)
  | @awaited qos =>
    by_cases one : qos = 1 <;> simp [one]
  | released _ releases =>
    cases releases with
    | sent | acked => exact absurd rfl used
    | received => simp
  | abandoned => exact absurd rfl used

/-- An item leaves its first state only by a write. -/
theorem ItemStep.written {item' : PackidStateItem} (step : ItemStep w w' sock item item')
    (fresh : item.state = .sendpublish) : Written w.trace sock item := by
  cases step with
  | advanced advances => exact absurd (.inl fresh) advances.kept.1
  | awaited _ wrote => exact wrote
  | released _ releases =>
    cases releases with
    | sent wrote => exact wrote
    | acked waits | received waits => exact absurd (waits.symm.trans fresh) nofun
  | abandoned _ wrote => exact wrote

theorem ItemStep.kept {item' : PackidStateItem} (step : ItemStep w w' sock item item') :
    (item'.packetId = item.packetId ∨ item'.packetId = 0) ∧ item'.origin = item.origin ∧
      item'.qos = item.qos := by
  cases step with
  | advanced advances =>
    obtain ⟨-, -, id, origin⟩ := advances.kept
    refine ⟨id, origin, ?_⟩
    cases advances <;> rfl
  | awaited => exact ⟨.inl rfl, rfl, rfl⟩
  | released _ releases =>
    obtain ⟨ends, origin⟩ := releases.kept
    refine ⟨ends.symm.imp_left fun kept => kept.1, origin, ?_⟩
    cases releases <;> rfl
  | abandoned => exact ⟨.inr rfl, rfl, rfl⟩

theorem ItemStep.deleteRetain {item' : PackidStateItem} (step : ItemStep w w' sock item item') :
    item'.deleteRetain = item.deleteRetain := by
  cases step with
  | advanced advances => cases advances <;> rfl
  | released _ releases => cases releases <;> rfl
  | awaited | abandoned => rfl

/-- An item comes to refer to no message. -/
theorem ItemStep.counted {item' : PackidStateItem} (step : ItemStep w w' sock item item')
    (counts : item'.state.Counted) : item.state.Counted := by
  cases step with
  | advanced advances => exact absurd counts advances.kept.2.1
  | awaited counted | released counted | abandoned counted => exact counted

/-- The items that are made for a socket. -/
inductive Made (w : World) (owed : List Admitted) (sock : Fin 64) : PackidStateItem → Prop
  | fannedOut {m : Admitted} {node : Node Client} {stamp : Nat} (qos : UInt8) :
      m.stamp = some stamp → m ∈ owed →
      node ∈ w.clientStore.nodes → node.data.sock = some sock → Heard w.trace m.topic node.key →
      Granted w.trace m node.key qos →
      Made w owed sock ⟨m.packetId, .sendpublish, qos, true,
        ⟨(w.socks sock).tls, m.frame, m.topic, some node.key, m.publisher, stamp⟩⟩
  | delivered (packetId : UInt16) (qos : UInt8) (topic : List UInt8) {i : Nat} :
      w.publishMsgStore.get packetId = some i →
      Made w owed sock ⟨packetId, .sendpublish, qos, false,
        { conn := (w.socks sock).tls, frame := (w.nodeAt i).data, topic }⟩
  | incoming {item : PackidStateItem} :
      item.state = .sendpuback ∧ item.qos = 1 ∨ item.state = .sendpubrec ∧ item.qos = 2 →
      item.origin.conn = (w.socks sock).tls → Made w owed sock item

/-- What one step makes of a slot of a socket: an item is kept, changed, or put
where there was none, in the first slot that is free. -/
inductive SlotStep (w : World) (owed : List Admitted) (w' : World) (sock : Fin 64) (i : Nat) :
    Option PackidStateItem → Option PackidStateItem → Prop
  | kept {old : Option PackidStateItem} : SlotStep w owed w' sock i old old
  | changed {item item' : PackidStateItem} : ItemStep w w' sock item item' →
      SlotStep w owed w' sock i (some item) (some item')
  | placed {old : Option PackidStateItem} {item : PackidStateItem} :
      (∀ x ∈ old, x.packetId = 0) →
      (∀ j < i, ∀ other, (w.items sock)[j]? = some other → other.packetId ≠ 0) →
      Made w owed sock item → (∃ late, w'.trace = late ++ .enqueued w.socks sock i item :: w.trace) →
      SlotStep w owed w' sock i old (some item)

variable {s : Fin 64} {k : Nat} {owed owed' : List Admitted}

theorem slot_setItem (at_i : (w.items sock)[i]? = some item)
    (step : ItemStep w w' sock item (f item)) (items : w'.items = (w.setItem sock i f).items) :
    SlotStep w owed w' s k (w.items s)[k]? (w'.items s)[k]? := by
  rw [items]
  by_cases here : s = sock
  · subst here
    rw [items_setItem, List.getElem?_modify]
    by_cases same : i = k
    · subst same
      rw [at_i]
      simpa using SlotStep.changed step
    · simpa [same] using SlotStep.kept
  · rw [items_setItem_other here]
    exact .kept

theorem slot_added (made : Made w owed sock item) (added : ItemAdded w sock item w₁) (items : w'.items = w₁.items)
    (grown : ∃ late, w'.trace = late ++ w₁.trace) :
    SlotStep w owed w' s k (w.items s)[k]? (w'.items s)[k]? := by
  obtain ⟨late, grown⟩ := grown
  rw [items]
  cases added with
  | @reused i old at_i free first =>
    have same : ((w.log (.enqueued w.socks sock i item)).setItem sock i fun _ => item).items =
      (w.setItem sock i fun _ => item).items := rfl
    rw [same]
    by_cases here : s = sock
    · subst here
      rw [items_setItem, List.getElem?_modify]
      by_cases same : i = k
      · subst same
        rw [at_i]
        simp only [if_true, Option.map_eq_map, Option.map_some]
        exact .placed (by simpa using free) first made ⟨late, grown⟩
      · simpa [same] using SlotStep.kept
    · rw [items_setItem_other here]
      exact .kept
  | pushed env capacity used =>
    by_cases here : s = sock
    · subst here
      have now : ((({ w with env := env }.log (.enqueued w.socks s (w.items s).length item)).setSock s
          ({ · with packidState := ⟨w.items s ++ [item], capacity⟩ })).items s) =
          w.items s ++ [item] := by simp only [World.items, setSock_socks]
      rw [now]
      rcases Nat.lt_trichotomy k (w.items s).length with inside | rfl | outside
      · rw [List.getElem?_append_left inside]
        exact .kept
      · rw [List.getElem?_concat_length, List.getElem?_eq_none le_rfl]
        refine .placed (by simp) (fun j _ other at_j => ?_) made ⟨late, grown⟩
        exact used other (List.mem_of_getElem? at_j)
      · have short : (w.items s ++ [item]).length ≤ k := by
          rw [List.length_append, List.length_singleton]
          exact outside
        rw [List.getElem?_eq_none short, List.getElem?_eq_none outside.le]
        exact .kept
    · simp only [World.items, setSock_other _ _ here]
      exact .kept
  | lost => exact .kept

/-- A step with messages changes an item in one of these ways. -/
theorem slot_act (act : MessageAct w owed w' owed') (s : Fin 64) (k : Nat) :
    SlotStep w owed w' s k (w.items s)[k]? (w'.items s)[k]? := by
  cases act with
  | start sock =>
    have same : ({ (w.log (.started sock (w.items sock))).setSock sock ({ · with tls := w.nextTls }) with
        nextTls := w.nextTls + 1 } : World).items s = w.items s := by
      by_cases here : s = sock
      · subst here
        simp only [World.items, setSock_socks]
        rfl
      · simp only [World.items, setSock_other _ _ here]
        rfl
    rw [same]
    exact .kept
  | accept | enter | refuse | readd | retire | retainRefused | retainNew | unheard | unknown | send
  | matched | resend =>
    exact .kept
  | retainReplace =>
    simp only [World.items, forget_socks]
    exact .kept
  | enqueue m qos stamped member node at_sock subscribed some_qos added _ offered granted =>
    have heard := offered.heard subscribed some_qos
    exact slot_added (.fannedOut qos stamped member node at_sock heard granted) added rfl ⟨[_], rfl⟩
  | deliver _ _ _ found added => exact slot_added (.delivered _ _ _ found) added rfl ⟨[_, _], rfl⟩
  | incoming _ kind conn _ added => exact slot_added (.incoming kind conn) added rfl ⟨[], rfl⟩
  | reply sock bytes f at_i _ _ advances => exact slot_setItem at_i (.advanced advances) rfl
  | answer sock f at_i _ advances => exact slot_setItem at_i (.advanced advances) rfl
  | await sock at_i counted wrote sentAs some_qos =>
    exact slot_setItem at_i (.awaited counted wrote sentAs some_qos) rfl
  | release sock packetId f at_i counted _ _ releases =>
    exact slot_setItem at_i (.released counted releases) (forget_items _)
  | abandon sock at_i counted _ _ wrote =>
    refine slot_setItem (f := ({ · with packetId := 0 })) at_i (.abandoned counted wrote ?_)
      (forget_items _)
    exact ⟨_, forget_trace _⟩

/-- The connection of a socket changes when a new one is set up on it, and not
otherwise. -/
theorem tls_act (act : MessageAct w owed w' owed') (s : Fin 64) :
    (w'.socks s).tls = (w.socks s).tls ∨ w'.trace = .started s (w.items s) :: w.trace := by
  cases act with
  | start sock =>
    by_cases here : s = sock
    · subst here
      exact .inr rfl
    · have same := setSock_other (w.log (.started sock (w.items sock))) ({ · with tls := w.nextTls }) here
      exact .inl (congrArg SockCid.tls same)
  | enqueue _ _ _ _ _ _ _ _ added => exact .inl (tls_added added s)
  | deliver _ _ _ _ added => exact .inl (tls_added added s)
  | incoming _ _ _ _ added => exact .inl (tls_added added s)
  | reply | answer | await => exact .inl (tls_setItem s)
  | retainReplace => exact .inl (by rw [forget_socks]; rfl)
  | release | abandon => exact .inl (by rw [forget_socks]; exact tls_setItem s)
  | _ => exact .inl rfl

/-- How a packet comes to be written for an item. -/
inductive WriteStep (w : World) (sock : Fin 64) (item : PackidStateItem) : List UInt8 → Prop
  | reply {i : Nat} (bytes : List UInt8) : (w.items sock)[i]? = some item → item.packetId ≠ 0 →
      ¬ item.state.Counted → WriteStep w sock item bytes
  | send {i j : Nat} (qos : UInt8) (deleteRetain : Bool) {head : UInt8} {rest : List UInt8} :
      (w.items sock)[i]? = some item → item.state.Counted → Live w sock item → SentAs w item qos →
      (item.state = .sendpublish → item.packetId ≠ 0 ∧ ∀ k < i, ∀ other,
        (w.items sock)[k]? = some other → ¬ PackidStateItem.Pending other) →
      w.publishMsgStore.get item.packetId = some j → (w.nodeAt j).data = head :: rest →
      SentWith w.trace item (w.nodeAt j) qos deleteRetain →
      WriteStep w sock item (publishHeader head qos deleteRetain :: rest)

/-- The events that no item is made or sent with. -/
def Plain : Event → Prop
  | .wrote _ _ _ (some _) | .enqueued .. => False
  | _ => True

/-- What a step reports of the items: nothing, a packet that is written for
one, or one that is made. -/
inductive LogStep (w : World) (owed : List Admitted) (w' : World) : Prop
  | plain (events : List Event) : w'.trace = events ++ w.trace → (∀ e ∈ events, Plain e) →
      LogStep w owed w'
  | wrote {sock : Fin 64} {item : PackidStateItem} (bytes : List UInt8) :
      WriteStep w sock item bytes →
      w'.trace = .wrote sock (w.socks sock) bytes (some item) :: w.trace → LogStep w owed w'
  | enqueued {sock : Fin 64} {i : Nat} {item : PackidStateItem} (late : List Event) :
      Made w owed sock item → (w'.items sock)[i]? = some item → (∀ e ∈ late, Plain e) →
      w'.trace = late ++ .enqueued w.socks sock i item :: w.trace → LogStep w owed w'

theorem log_added (late : List Event) (made : Made w owed sock item)
    (added : ItemAdded w sock item w₁) (items : w'.items = w₁.items) (plain : ∀ e ∈ late, Plain e)
    (grown : w'.trace = late ++ w₁.trace) : LogStep w owed w' := by
  cases added with
  | @reused i =>
    refine .enqueued late made ?_ plain grown
    rw [items]
    exact at_setItem ‹(w.items sock)[i]? = some _›
  | pushed =>
    refine .enqueued late made ?_ plain grown
    rw [items]
    simp only [World.items, setSock_socks]
    exact List.getElem?_concat_length
  | lost =>
    refine .plain (late ++ [.lost item]) (grown.trans (List.append_cons ..)) ?_
    exact List.forall_mem_append.mpr ⟨plain, List.forall_mem_singleton.mpr trivial⟩

theorem log_act (act : MessageAct w owed w' owed') : LogStep w owed w' := by
  cases act with
  | accept | start | readd | unheard | unknown | matched | answer | resend =>
    exact .plain [_] rfl (List.forall_mem_singleton.mpr trivial)
  | enter | refuse | retainRefused => exact .plain [_, _] rfl (by simp [Plain])
  | retainNew => exact .plain [_, _, _, _] rfl (by simp [Plain])
  | retainReplace =>
    exact .plain _ (forget_grown [_, _, _] rfl) (forgotten_all (fun _ => trivial) (by simp [Plain]))
  | enqueue m qos stamped member node at_sock subscribed some_qos added _ offered granted =>
    have heard := offered.heard subscribed some_qos
    exact log_added [.counting _] (.fannedOut qos stamped member node at_sock heard granted) added rfl
      (List.forall_mem_singleton.mpr trivial) rfl
  | deliver _ _ _ found added =>
    exact log_added [.sought .., .counting _] (.delivered _ _ _ found) added rfl (by simp [Plain]) rfl
  | incoming _ kind conn _ added =>
    exact log_added [] (.incoming kind conn) added rfl (List.forall_mem_nil _) rfl
  | reply _ bytes f at_i used _ advances =>
    exact .wrote _ (.reply _ at_i used advances.kept.1) rfl
  | send _ qos deleteRetain at_i counted live sent first found held sentWith =>
    exact .wrote _ (.send qos deleteRetain at_i counted live sent first found held sentWith) rfl
  | retire => exact .plain [_] rfl (List.forall_mem_singleton.mpr trivial)
  | await => exact .plain [] rfl (List.forall_mem_nil _)
  | release =>
    exact .plain _ (forget_grown [] rfl) (forgotten_all (fun _ => trivial) (List.forall_mem_nil _))
  | abandon =>
    exact .plain _ (forget_grown [_] rfl)
      (forgotten_all (fun _ => trivial) (List.forall_mem_singleton.mpr trivial))

theorem wrote_act (act : MessageAct w owed w' owed') {sockst : SockCid} {bytes : List UInt8}
    (wrote : .wrote sock sockst bytes (some item) ∈ w'.trace) :
    .wrote sock sockst bytes (some item) ∈ w.trace ∨
      sockst = w.socks sock ∧ WriteStep w sock item bytes := by
  rcases log_act act with ⟨events, grown, plain⟩ | ⟨_, step, grown⟩ | ⟨late, -, -, plain, grown⟩
  · rw [grown] at wrote
    exact .inl ((List.mem_append.mp wrote).resolve_left fun member => plain _ member)
  · rw [grown] at wrote
    rcases List.mem_cons.mp wrote with same | wrote
    · cases same
      exact .inr ⟨rfl, step⟩
    · exact .inl wrote
  · rw [grown] at wrote
    have before := (List.mem_append.mp wrote).resolve_left fun member => plain _ member
    exact .inl ((List.mem_cons.mp before).resolve_left nofun)

/-! ### What is accepted -/

def Accepts : Event → Prop
  | .publishing .. => True
  | _ => False

theorem accepts_added (added : ItemAdded w sock item w') :
    ∃ events, w'.trace = events ++ w.trace ∧ ∀ e ∈ events, ¬ Accepts e := by
  rcases trace_added added with ⟨_, grown⟩ | grown
  · exact ⟨[_], grown, List.forall_mem_singleton.mpr not_false⟩
  · exact ⟨[_], grown, List.forall_mem_singleton.mpr not_false⟩

/-- A step accepts no PUBLISH, or one as it was received. -/
theorem accepts_act (act : MessageAct w owed w' owed') :
    (∃ events, w'.trace = events ++ w.trace ∧ ∀ e ∈ events, ¬ Accepts e) ∨
      ∃ sock qos packetId topic frame,
        w'.trace = .publishing sock (w.socks sock) qos packetId topic frame :: w.trace ∧
          AsReceived w.trace sock (w.socks sock) qos packetId topic frame := by
  cases act with
  | accept sock qos packetId topic frame received => exact .inr ⟨sock, qos, packetId, topic, frame, rfl, received⟩
  | start | readd | unheard | unknown | send | matched | resend | reply | answer | retire =>
    exact .inl ⟨[_], rfl, List.forall_mem_singleton.mpr not_false⟩
  | enter | refuse | retainRefused => exact .inl ⟨[_, _], rfl, by simp [Accepts]⟩
  | retainNew => exact .inl ⟨[_, _, _, _], rfl, by simp [Accepts]⟩
  | retainReplace =>
    exact .inl ⟨_, forget_grown [_, _, _] rfl, forgotten_all (fun _ => not_false) (by simp [Accepts])⟩
  | await => exact .inl ⟨[], rfl, List.forall_mem_nil _⟩
  | release =>
    exact .inl ⟨_, forget_grown [] rfl, forgotten_all (fun _ => not_false) (List.forall_mem_nil _)⟩
  | abandon =>
    exact .inl ⟨_, forget_grown [_] rfl,
      forgotten_all (fun _ => not_false) (List.forall_mem_singleton.mpr not_false)⟩
  | enqueue _ _ _ _ _ _ _ _ added =>
    obtain ⟨events, grown, none⟩ := accepts_added added
    exact .inl ⟨.counting _ :: events, congrArg _ grown, List.forall_mem_cons.mpr ⟨not_false, none⟩⟩
  | deliver _ _ _ _ added =>
    obtain ⟨events, grown, none⟩ := accepts_added added
    refine .inl ⟨_ :: _ :: events, congrArg (_ :: _ :: ·) grown, ?_⟩
    exact List.forall_mem_cons.mpr ⟨not_false, List.forall_mem_cons.mpr ⟨not_false, none⟩⟩
  | incoming _ _ _ _ added => exact .inl (accepts_added added)

/-- A PUBLISH is accepted as it was received. -/
def Accepted (earlier : List Event) : Event → Prop
  | .publishing sock sockst qos packetId topic frame => AsReceived earlier sock sockst qos packetId topic frame
  | _ => True

theorem accepted_other {events earlier : List Event} (accepted : Lawful Accepted earlier)
    (none : ∀ e ∈ events, ¬ Accepts e) : Lawful Accepted (events ++ earlier) := by
  refine accepted.append fun e member earlier => ?_
  cases e with
  | publishing => exact absurd trivial (none _ member)
  | _ => trivial

theorem accepted_act (act : MessageAct w owed w' owed') (accepted : Lawful Accepted w.trace) :
    Lawful Accepted w'.trace := by
  rcases accepts_act act with ⟨events, grown, none⟩ | ⟨sock, qos, packetId, topic, frame, grown, received⟩
  · rw [grown]
    exact accepted_other accepted none
  · rw [grown]
    exact lawful_cons.mpr ⟨received, accepted⟩

theorem accepted_framed (kept : MessagesKept w w') (accepted : Lawful Accepted w.trace) :
    Lawful Accepted w'.trace := by
  obtain ⟨events, grown, others⟩ := kept.trace
  rw [grown]
  refine accepted_other accepted fun e member accepts => ?_
  cases e with
  | publishing => exact others _ member trivial
  | _ => exact accepts

theorem reachable_accepted (reachable : Reachable w) : Lawful Accepted w.trace :=
  reachable.messages (fun _ => True) (fun w _ => Lawful Accepted w.trace) (fun _ => lawful_nil) accepted_framed
    (fun act _ => accepted_act act) fun _ _ => trivial

/-- An accepted PUBLISH was received just before. -/
theorem accepted_mem {trace : List Event} (accepted : Lawful Accepted trace) {sockst : SockCid} {qos : UInt8}
    {packetId : UInt16} {topic frame : List UInt8} (member : .publishing sock sockst qos packetId topic frame ∈ trace) :
    ∃ earlier, (.publishing sock sockst qos packetId topic frame :: earlier) <:+ trace ∧
      AsReceived earlier sock sockst qos packetId topic frame := by
  obtain ⟨late, earlier, split⟩ := List.append_of_mem member
  exact ⟨earlier, ⟨late, split.symm⟩, accepted late _ earlier split⟩

end MqttBroker.World
