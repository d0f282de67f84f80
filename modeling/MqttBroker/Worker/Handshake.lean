import MqttBroker.Worker.Items

/-! The QoS handshakes. The QoS of an item fixes its path, but a message that
is sent again goes out with the QoS it is stored with, and the item then waits
for the answer to that. -/
namespace MqttBroker
open Worker World

namespace PackidStateItem

variable {item item' : PackidStateItem} {qos : UInt8}

/-- The state is one of the path that the QoS fixes; a QoS above 1 has the
longest one. -/
def OnPath (item : PackidStateItem) : Prop :=
  match item.state with
  | .sendpublish => True
  | .getpuback | .sendpuback => item.qos = 1
  | .getpubrec | .sendpubrel | .getpubcomp | .sendpubrec | .getpubrel | .sendpubcomp => 1 < item.qos

/-- The item one step on along its path. -/
def next (item : PackidStateItem) : PackidStateItem :=
  match item.state with
  | .sendpublish =>
    if item.qos = 0 then { item with packetId := 0 }
    else if item.qos = 1 then { item with state := .getpuback }
    else { item with state := .getpubrec }
  | .getpuback | .getpubcomp | .sendpuback | .sendpubcomp => { item with packetId := 0 }
  | .getpubrec => { item with state := .sendpubrel }
  | .sendpubrel => { item with state := .getpubcomp }
  | .sendpubrec => { item with state := .getpubrel }
  | .getpubrel => { item with state := .sendpubcomp }

/-- A live item goes one step on. -/
def Steps (item item' : PackidStateItem) : Prop := item.packetId ≠ 0 ∧ item.OnPath ∧ item' = item.next

/-- What becomes of the slot `i` of a socket while some events are logged. A live
item in it goes on along its path, and is freed before the end of it only because
a write of its message failed; a free slot stays free until an item is put in. -/
inductive Followed (sock : Fin 64) (i : Nat) (old : Option PackidStateItem) :
    List Event → Option PackidStateItem → Prop
  | start : Followed sock i old [] old
  | stays {events : List Event} {now : Option PackidStateItem} (late : List Event) :
      Followed sock i old events now → Followed sock i old (late ++ events) now
  | goesOn {events : List Event} {item item' : PackidStateItem} (late : List Event) :
      Followed sock i old events (some item) → Steps item item' →
      Followed sock i old (late ++ events) (some item')
  | failed {events : List Event} {item : PackidStateItem} (late : List Event) :
      Followed sock i old events (some item) → item.packetId ≠ 0 → item.state.Counted →
      .unsent item ∈ late → Followed sock i old (late ++ events) (some { item with packetId := 0 })
  | free {events : List Event} {item item' : PackidStateItem} (late : List Event) :
      Followed sock i old events (some item) → item.packetId = 0 → item'.packetId = 0 →
      Followed sock i old (late ++ events) (some item')
  | placed {events : List Event} {now : Option PackidStateItem} {item : PackidStateItem}
      {socks : Fin 64 → SockCid} (late : List Event) :
      Followed sock i old events now → (∀ x ∈ now, x.packetId = 0) →
      .enqueued socks sock i item ∈ late → Followed sock i old (late ++ events) (some item)

theorem two_or_more (not_zero : qos ≠ 0) (not_one : qos ≠ 1) : 1 < qos := by
  rw [UInt8.lt_iff_toNat_lt]
  have : qos.toNat ≠ 0 := fun zero => not_zero (UInt8.toNat_inj.mp zero)
  have : qos.toNat ≠ 1 := fun one => not_one (UInt8.toNat_inj.mp one)
  have : (1 : UInt8).toNat = 1 := rfl
  omega

/-- A path does not leave itself. -/
theorem OnPath.next (onPath : item.OnPath) : item.next.OnPath := by
  cases state : item.state <;> simp only [OnPath, state] at onPath
  case sendpublish =>
    simp only [PackidStateItem.next, state]
    split
    · simp only [OnPath]
    split
    · rename_i one
      exact one
    · simpa only [OnPath] using two_or_more ‹_› ‹_›
  all_goals simpa only [PackidStateItem.next, OnPath, state] using onPath

/-- An item without a message advances along its path. -/
theorem advances_next (advances : Advances item item') : item' = item.next := by
  cases advances with
  | done state =>
    simp only [List.mem_cons, List.not_mem_nil, or_false] at state
    rcases state with state | state | state <;> simp only [PackidStateItem.next, state]
  | next states =>
    simp only [List.mem_cons, List.not_mem_nil, or_false, Prod.mk.injEq] at states
    rcases states with ⟨state, rfl⟩ | ⟨state, rfl⟩ | ⟨state, rfl⟩ <;>
      simp only [PackidStateItem.next, state]

end PackidStateItem

/-- A message is sent again with the QoS its item has. -/
def Event.SameQos : Event → Prop
  | .resending item node => node.qos = item.qos
  | _ => True

instance : DecidablePred Event.SameQos := fun e => by
  rcases e with ⟨⟩ <;> dsimp only [Event.SameQos] <;> infer_instance

/-- A message that goes out for an item has the item's QoS. -/
def Event.OnWire : Event → Prop
  | .wrote _ _ bytes (some item) => item.state.Counted →
      ∃ head rest, bytes = head :: rest ∧ (head >>> 1) &&& 3 = item.qos &&& 3
  | _ => True

namespace Handshake
open PackidStateItem

variable {w w' : World} {sock : Fin 64} {i : Nat} {item item' : PackidStateItem} {qos : UInt8}
  {owed owed' : List Admitted}

theorem sentAs_qos (meets : ∀ e ∈ w.trace, e.SameQos) (sent : SentAs w item qos) : qos = item.qos := by
  rcases sent with ⟨-, same⟩ | ⟨node, resent, rfl⟩
  · exact same
  · exact meets _ resent

/-- What a step makes of an item on its path. -/
theorem item_next (meets : ∀ e ∈ w.trace, e.SameQos) (onPath : item.OnPath)
    (step : ItemStep w w' sock item item') :
    item' = item ∨ item' = item.next ∨ item' = { item with packetId := 0 } ∧ item.state.Counted ∧
      ∃ late, w'.trace = late ++ .unsent item :: w.trace := by
  cases step with
  | advanced advances => exact .inr (.inl (advances_next advances))
  | awaited counted wrote sent some_qos =>
    obtain rfl := sentAs_qos meets sent
    rcases counted with state | state | state <;> simp only [OnPath, state] at onPath
    · right
      left
      simp only [PackidStateItem.next, state, some_qos, if_false]
      split <;> rfl
    · left
      rw [if_pos onPath, ← state]
    · left
      have not_one : item.qos ≠ 1 := by
        intro one
        rw [one] at onPath
        exact absurd onPath (by decide)
      simp only [not_one, if_false, ← state]
  | released counted releases =>
    right
    left
    cases releases with
    | sent wrote sent =>
      have zero := sentAs_qos meets sent
      rcases counted with state | state | state <;> simp only [OnPath, state, ← zero] at onPath
      · simp only [PackidStateItem.next, state, ← zero, if_true]
      · exact absurd onPath (by decide)
      · exact absurd onPath (by decide)
    | acked state => simp only [PackidStateItem.next, state]
    | received state => simp only [PackidStateItem.next, state]
  | abandoned counted wrote grown => exact .inr (.inr ⟨rfl, counted, grown⟩)

/-- The items in use are on their paths, and what was written for an item went
out with its QoS. -/
structure OnPaths (w : World) : Prop where
  items : ∀ sock, ∀ item ∈ w.items sock, item.packetId ≠ 0 → item.OnPath
  wire : ∀ e ∈ w.trace, e.OnWire

theorem made_onPath (made : Made w owed sock item) : item.OnPath := by
  cases made with
  | fannedOut | delivered => trivial
  | incoming kind =>
    rcases kind with ⟨state, qos⟩ | ⟨state, qos⟩ <;> simp only [OnPath, state, qos]
    decide

/-- Every step keeps the items on their paths. -/
theorem kept (act : MessageAct w owed w' owed') (meets : ∀ e ∈ w'.trace, e.SameQos)
    (onPaths : OnPaths w) : OnPaths w' := by
  have meets : ∀ e ∈ w.trace, e.SameQos := meets_before (messageAct_trace act) meets
  refine ⟨fun sock item member used => ?_, ?_⟩
  · obtain ⟨i, at_i⟩ := List.mem_iff_getElem?.mp member
    have step := slot_act act sock i
    rw [at_i] at step
    generalize before : (w.items sock)[i]? = old at step
    cases step with
    | kept => exact onPaths.items sock item (List.mem_of_getElem? before) used
    | placed _ _ made => exact made_onPath made
    | @changed old _ step =>
      have live : old.packetId ≠ 0 := by
        intro free
        rcases step.kept.1 with same | same
        · exact used (same.trans free)
        · exact used same
      have onPath := onPaths.items sock old (List.mem_of_getElem? before) live
      rcases item_next meets onPath step with rfl | rfl | ⟨free, -⟩
      · exact onPath
      · exact onPath.next
      · rw [free] at used
        exact absurd rfl used
  · intro e member
    cases e with
    | wrote sock sockst bytes item =>
      cases item with
      | none => trivial
      | some item =>
        intro counted
        rcases wrote_act act member with before | ⟨-, step⟩
        · exact onPaths.wire _ before counted
        · cases step with
          | reply _ _ _ uncounted => exact absurd counted uncounted
          | send qos deleteRetain _ _ _ sent =>
            refine ⟨_, _, rfl, ?_⟩
            rw [publishHeader_qos, sentAs_qos meets sent]
    | _ => trivial

theorem frame (same : MessagesKept w w') (onPaths : OnPaths w) : OnPaths w' := by
  refine ⟨fun sock item member used => ?_, ?_⟩
  · rw [same.items] at member
    exact onPaths.items sock item member used
  · obtain ⟨events, grown, others⟩ := same.trace
    rw [grown]
    refine List.forall_mem_append.mpr ⟨fun e member => ?_, onPaths.wire⟩
    cases e with
    | wrote _ _ _ item =>
      cases item with
      | none => trivial
      | some => exact absurd trivial (others _ member)
    | _ => trivial

/-- A slot is followed through one more step. -/
theorem followed {old : Option PackidStateItem} {events late : List Event} (act : MessageAct w owed w' owed')
    (grown : w'.trace = late ++ w.trace) (meets : ∀ e ∈ w.trace, e.SameQos) (onPaths : OnPaths w)
    (so_far : Followed sock i old events (w.items sock)[i]?) :
    Followed sock i old (late ++ events) (w'.items sock)[i]? := by
  have step := slot_act act sock i
  generalize before : (w.items sock)[i]? = held at step so_far
  generalize (w'.items sock)[i]? = now at step
  cases step with
  | kept => exact so_far.stays late
  | placed free _ _ logged =>
    obtain ⟨rest, logged⟩ := logged
    rw [grown, List.append_cons] at logged
    obtain rfl := List.append_cancel_right logged
    exact so_far.placed _ free (List.mem_append_right _ (List.mem_singleton_self _))
  | @changed item item' step =>
    by_cases live : item.packetId = 0
    · refine so_far.free late live ?_
      rcases step.kept.1 with same | zero
      · exact same.trans live
      · exact zero
    have onPath := onPaths.items sock item (List.mem_of_getElem? before) live
    rcases item_next meets onPath step with rfl | rfl | ⟨rfl, counted, rest, unsent⟩
    · exact so_far.stays late
    · exact so_far.goesOn late ⟨live, onPath, rfl⟩
    · rw [grown, List.append_cons] at unsent
      obtain rfl := List.append_cancel_right unsent
      exact so_far.failed _ live counted (List.mem_append_right _ (List.mem_singleton_self _))

/-- A subscriber with QoS `granted` gets a message of QoS 2. -/
def sentTo (granted : UInt8) : List (Message × Env) :=
  [accepting 1, reading 1 (connectPacket [97] 2), accepting 2, reading 2 (connectPacket [98] 2),
    subscribing 2 [116] granted, reading 1 (publishPacket 0x34 [116] [0, 5, 1]), writing 2]

end Handshake
end MqttBroker
