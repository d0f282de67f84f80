import MqttBroker.MyhashmapContents
import MqttBroker.PublishHashmapWeights
import MqttBroker.Worker.Ledger
import MqttBroker.Worker.Stored

/-! The stored messages that something still needs: the items that have one to
send or wait for its acknowledgement, and the topics it is retained on. Their
counts may be too high, as those of a retained message are, but never too
low. -/
namespace MqttBroker.Supply
open Worker World PublishHashmap PublishHashmapReachability Ledger Logic

/-! ### The table -/

/-- The table is in order, and an id is counted at least as often as it is
needed. Id 0 is left out, for it marks free items and free slots. -/
structure Covered (m : PublishHashmap) (need : UInt16 → Nat) : Prop where
  findable : Findable m
  placed : Placed m.powerOfCap m.slots
  enough : ∀ x, x ≠ 0 → need x ≤ weight m.slots x

namespace Covered
variable {m : PublishHashmap} {need need' : UInt16 → Nat} {x : UInt16} {i : Nat} {w : World}

theorem mono (covered : Covered m need) (less : ∀ x, x ≠ 0 → need' x ≤ need x) : Covered m need' :=
  ⟨covered.findable, covered.placed, fun x used => (less x used).trans (covered.enough x used)⟩

theorem found (covered : Covered m need) (used : x ≠ 0) (needed : need x ≠ 0) : ∃ i, m.get x = some i := by
  have enough := covered.enough x used
  exact found_of_weight covered.placed (by omega)

theorem add (covered : Covered m need) (room : Room m x) (data : List UInt8) (qos : UInt8) {count : UInt8}
    (counted : count ≠ 0) (heap : Heap) :
    Covered (m.add x data qos count heap).2.1
      fun y => need y + if (m.add x data qos count heap).1 ∧ y = x then count.toNat else 0 := by
  refine ⟨covered.findable.add x data qos count heap,
    (add_spec covered.placed covered.findable.bounded room data qos counted heap).1, fun y used => ?_⟩
  rw [add_weight covered.placed covered.findable.bounded room data qos counted heap]
  exact Nat.add_le_add_right (covered.enough y used) _

theorem up (covered : Covered m need) (found : m.get x = some i) (room : (slotAt m.slots i).count ≠ 255) :
    Covered { m with slots := m.slots.set i { slotAt m.slots i with count := (slotAt m.slots i).count + 1 } }
      fun y => need y + if y = x then 1 else 0 := by
  have live : (slotAt m.slots i).count + 1 ≠ 0 := by
    intro zero
    have up := toNat_up room
    rw [zero] at up
    exact absurd up (Nat.succ_ne_zero _).symm
  refine ⟨covered.findable.recount found _, placed_recount covered.placed found live, fun y used => ?_⟩
  rw [weight_up covered.placed found room]
  exact Nat.add_le_add_right (covered.enough y used) _

theorem down (covered : Covered m need) (found : m.get x = some i)
    (less : ∀ y, y ≠ 0 → need' y + (if y = x then 1 else 0) ≤ need y) : Covered (countedDown m x i) need' := by
  refine ⟨?_, placed_countedDown covered.placed found, fun y used => ?_⟩
  · unfold countedDown
    split
    · exact (covered.findable.recount found _).erase x
    · exact covered.findable.recount found _
  · have lighter := weight_countedDown covered.placed found used
    have enough := covered.enough y used
    have fewer := less y used
    omega

/-- An id that is needed once less is counted down, wherever it is found. -/
theorem forget (covered : Covered w.publishMsgStore need)
    (less : ∀ y, y ≠ 0 → need' y + (if y = x then 1 else 0) ≤ need y) :
    Covered (w.forget x).publishMsgStore need' := by
  unfold World.forget
  cases found : w.publishMsgStore.get x with
  | some i => exact covered.down found less
  | none =>
    refine covered.mono fun y used => ?_
    have fewer := less y used
    omega

/-- A message that comes leaves what another id carries, and says the same if the
id is its own. -/
theorem carries_add (covered : Covered m need) (room : Room m x) {frame data : List UInt8} {frameQos qos count : UInt8}
    (counted : count ≠ 0) (heap : Heap) {y : UInt16} (carries : Carries m.slots y data qos) (used : y ≠ 0)
    (heavy : weight m.slots y ≠ 0) (same : x = y → Carries m.slots x frame frameQos) :
    Carries (m.add x frame frameQos count heap).2.1.slots y data qos := by
  refine carries.add covered.placed covered.findable.bounded room counted heap fun id => ?_
  subst id
  exact (same rfl).unique covered.placed heavy used carries

end Covered

theorem carries_forget {w : World} {y : UInt16} {data : List UInt8} {qos : UInt8}
    (carries : Carries w.publishMsgStore.slots y data qos)
    (placed : Placed w.publishMsgStore.powerOfCap w.publishMsgStore.slots) (used : y ≠ 0) (x : UInt16) :
    Carries (w.forget x).publishMsgStore.slots y data qos := by
  unfold World.forget
  cases found : w.publishMsgStore.get x with
  | none => exact carries
  | some i => exact carries.countedDown placed found used

/-! ### One step -/

/-- How often an id is counted, or will be. -/
def need (w : World) (owed : List Admitted) (x : UInt16) : Nat := references w x + kept w x + guards owed x

/-- What may happen to the counts: a message finds room in the table, and is not
refused if its id is there already; no count goes up from 255. -/
def Provides : Event → Prop
  | .adding _ store x _ _ ok => Room store x ∧ (ok = false → weight store.slots x = 0)
  | .counting node => node.count ≠ 255
  | _ => True

instance : DecidablePred Provides := fun e => by
  rcases e with ⟨⟩ <;> dsimp only [Provides] <;> infer_instance

/-- What is needed is there, in the middle of a turn too. -/
structure Supplied (w : World) (owed : List Admitted) : Prop where
  covered : Covered w.publishMsgStore (need w owed)
  sound : w.retainedSubMsg.Sound

section Steps
variable {w w₁ w' : World} {owed owed' : List Admitted} {sock : Fin 64} {item : PackidStateItem} {i : Nat}
  {x : UInt16} {topic : Key} {f : PackidStateItem → PackidStateItem} {frame : List UInt8} {qos count : UInt8}
  {heap : Heap}

theorem kept_congr (same : w'.retainedSubMsg = w.retainedSubMsg) : kept w' x = kept w x := by
  rw [kept, kept, same]

/-- An item that is added brings its share, or nothing if it is lost. -/
theorem references_added_le (added : ItemAdded w sock item w') : references w' x ≤ references w x + share x item := by
  cases added with
  | @reused i old at_i free =>
    have changed := references_setItem (x := x) (f := fun _ => item) at_i
    rw [share_free free, Nat.add_zero] at changed
    exact ((references_congr rfl).trans changed).le
  | pushed =>
    refine (references_pushed sock ?_ fun s other => ?_).le
    · simp only [World.items, setSock_socks]
    · simp only [World.items, setSock_other _ _ other]
      rfl
  | lost => exact Nat.le_add_right_of_le (references_congr rfl).le

theorem share_le (x : UInt16) (item : PackidStateItem) : share x item ≤ if x = item.packetId then 1 else 0 := by
  by_cases same : x = item.packetId
  · rw [if_pos same]
    exact Bool.toNat_le _
  · simp [share, Refers, same, Ne.symm same]

namespace Supplied

/-- A step that changes neither table. -/
theorem still (supplied : Supplied w owed) (store : w'.publishMsgStore = w.publishMsgStore)
    (retained : w'.retainedSubMsg = w.retainedSubMsg)
    (less : ∀ x, references w' x + guards owed' x ≤ references w x + guards owed x) : Supplied w' owed' := by
  refine ⟨?_, retained ▸ supplied.sound⟩
  rw [store]
  refine supplied.covered.mono fun x _ => ?_
  have fewer := less x
  rw [need, need, kept_congr retained]
  omega

theorem same (supplied : Supplied w owed) (store : w'.publishMsgStore = w.publishMsgStore)
    (retained : w'.retainedSubMsg = w.retainedSubMsg) (items : w'.items = w.items) : Supplied w' owed :=
  supplied.still store retained fun _ => (Nat.add_right_cancel_iff.mpr (references_congr items)).le

theorem setItem (supplied : Supplied w owed) (at_i : (w.items sock)[i]? = some item)
    (shares : ∀ x, share x (f item) = share x item) : Supplied (w.setItem sock i f) owed := by
  refine supplied.still rfl rfl fun x => ?_
  have changed := references_setItem (x := x) (f := f) at_i
  have same := shares x
  omega

/-- An item is done with its message. -/
theorem release (supplied : Supplied w owed) (at_i : (w.items sock)[i]? = some item) (counted : item.state.Counted)
    (gone : ∀ x, share x (f item) = 0) : Supplied ((w.setItem sock i f).forget item.packetId) owed := by
  have retained : ((w.setItem sock i f).forget item.packetId).retainedSubMsg = w.retainedSubMsg :=
    forget_retained _ _
  refine ⟨Covered.forget (w := w.setItem sock i f) supplied.covered fun y used => ?_, retained ▸ supplied.sound⟩
  have changed := references_setItem (x := y) (f := f) at_i
  rw [gone] at changed
  rw [need, need, references_congr (forget_items item.packetId), kept_congr retained]
  by_cases same : y = item.packetId
  · subst same
    rw [share_self used counted, if_pos rfl] at changed
    rw [if_pos rfl]
    omega
  · rw [if_neg same]
    omega

/-- The message that `publish_by_topic` is called with comes to the table. -/
theorem enter (supplied : Supplied w owed) (none : ∀ m ∈ owed, m.stamp = none) {m : Admitted} (stamped : m.stamp.isSome)
    (provides : Provides (.adding w.socks w.publishMsgStore m.packetId m.frame qos
      (w.publishMsgStore.add m.packetId m.frame qos 1 heap).1))
    (found : (w.stored m.packetId m.frame qos 1 heap).publishMsgStore.get m.packetId = some i) :
    Supplied (w.stored m.packetId m.frame qos 1 heap) [m] := by
  have one : (1 : UInt8) ≠ 0 := by decide
  have added := supplied.covered.add provides.1 m.frame qos one heap
  refine ⟨added.mono fun y used => ?_, supplied.sound⟩
  change references w y + kept w y + guards [m] y ≤ _
  rw [need, guards_unstamped none, guards_stamped stamped]
  cases ok : (w.publishMsgStore.add m.packetId m.frame qos 1 heap).1 with
  | true => by_cases same : y = m.packetId <;> simp [same]
  | false =>
    by_cases same : y = m.packetId
    · subst same
      -- what refuses a message has no node with its id, which was found
      have heavy := weight_of_found added.placed found used
      have lighter := add_weight supplied.covered.placed supplied.covered.findable.bounded provides.1 m.frame qos
        one heap m.packetId
      rw [ok, provides.2 ok] at lighter
      exact absurd lighter heavy
    · simp [same]

/-- A message comes that nothing refers to yet. -/
theorem stored (supplied : Supplied w owed) (counted : count ≠ 0) (room : Room w.publishMsgStore x)
    (fewer : ∀ x, guards owed' x ≤ guards owed x) : Supplied (w.stored x frame qos count heap) owed' := by
  refine ⟨(supplied.covered.add room frame qos counted heap).mono fun y _ => ?_, supplied.sound⟩
  have less := fewer y
  change references w y + kept w y + guards owed' y ≤ _
  rw [need]
  omega

/-- An item for a message is added, and its message counted for it. -/
theorem enqueue (supplied : Supplied w owed) (added : ItemAdded w sock item w₁)
    (found : w.publishMsgStore.get item.packetId = some i) (room : (w₁.nodeAt i).count ≠ 255) :
    Supplied (w₁.countUp i) owed := by
  obtain ⟨store, -, retained⟩ := itemAdded_frame added
  rw [nodeAt, store] at room
  have counted : (w₁.countUp i).publishMsgStore = (w.countUp i).publishMsgStore := by
    simp only [World.countUp, nodeAt, store]
  refine ⟨?_, (retained : (w₁.countUp i).retainedSubMsg = _) ▸ supplied.sound⟩
  rw [counted]
  refine (supplied.covered.up found room).mono fun y used => ?_
  have same : references (w₁.countUp i) y = references w₁ y := references_congr rfl
  have kept : kept (w₁.countUp i) y = kept w y := kept_congr retained
  have grown := references_added_le (x := y) added
  have one := share_le y item
  rw [need, need, same, kept]
  omega

/-- `publish_by_topic` gives its count back. -/
theorem retire {m : Admitted} (supplied : Supplied w [m]) (stamped : m.stamp.isSome)
    (found : w.publishMsgStore.get m.packetId = some i) : Supplied (w.countDown i m.packetId) [] := by
  have store : (w.countDown i m.packetId).publishMsgStore = countedDown w.publishMsgStore m.packetId i := rfl
  refine ⟨?_, supplied.sound⟩
  rw [store]
  refine supplied.covered.down found fun y _ => ?_
  have none : guards [] y = 0 := guards_unstamped (List.forall_mem_nil _)
  change references w y + kept w y + guards [] y + _ ≤ _
  rw [none, need, guards_stamped stamped]
  omega

/-! A message with the RETAIN flag. -/

/-- The new message has two counts before anything refers to it. -/
theorem entered (supplied : Supplied w owed) (room : Room w.publishMsgStore x)
    (ok : (w.publishMsgStore.add x frame qos 2 heap).1 = true) :
    Covered (w.publishMsgStore.add x frame qos 2 heap).2.1 fun y => need w owed y + if y = x then 2 else 0 := by
  refine (supplied.covered.add room frame qos (by decide) heap).mono fun y _ => ?_
  rw [ok]
  by_cases same : y = x <;> simp [same]

/-- One topic more at most is kept under the id. -/
theorem keeping (supplied : Supplied w owed) (stored : (w.publishMsgStore.add x frame qos 2 heap).1 = true)
    (room : Room w.publishMsgStore x) (ok : Bool) {retained : Myhashmap UInt16} (sound : retained.Sound)
    (few : ∀ y, retained.nodes.countP (·.data = y) ≤ kept w y + if y = x then 1 else 0) :
    Supplied { (((w.log (.retain topic frame qos x)).stored x frame qos 2 heap).log (.retaining x)).log
      (.keeping w.retainedSubMsg topic ok) with retainedSubMsg := retained } owed := by
  refine ⟨(supplied.entered room stored).mono fun y _ => ?_, sound⟩
  change references w y + retained.nodes.countP (·.data = y) + guards owed y ≤ _
  have less := few y
  rw [need]
  by_cases same : y = x
  · rw [if_pos same] at less ⊢
    omega
  · rw [if_neg same] at less ⊢
    omega

theorem retainNew (supplied : Supplied w owed) {before after : Heap} {ok : Bool} {retained : Myhashmap UInt16}
    (stored : (w.publishMsgStore.add x frame qos 2 heap).1 = true) (fresh : w.retainedSubMsg.get topic = .ok none)
    (added : w.retainedSubMsg.add topic x before = .ok (ok, retained, after)) (room : Room w.publishMsgStore x) :
    Supplied { (((w.log (.retain topic frame qos x)).stored x frame qos 2 heap).log (.retaining x)).log
      (.keeping w.retainedSubMsg topic ok) with retainedSubMsg := retained } owed := by
  obtain ⟨result, ends, how⟩ := Myhashmap.add_ends supplied.sound.buckets supplied.sound.unsized topic x before
  obtain rfl := Except.ok.inj (ends.symm.trans added)
  cases how with
  | refused => exact supplied.keeping stored room _ supplied.sound fun y => Nat.le_add_right _ _
  | emptied _ crowded =>
    refine supplied.keeping stored room _ (Myhashmap.sound_emptied supplied.sound.buckets crowded) fun y => ?_
    rw [Myhashmap.nodes_emptied]
    exact Nat.zero_le _
  | appended =>
    have sound := supplied.sound.appended (supplied.sound.get_none.mp fresh) x
    refine supplied.keeping stored room _ sound fun y => ?_
    rw [(Myhashmap.perm_appended supplied.sound.buckets topic x).countP_eq, List.countP_cons, kept]
    by_cases same : y = x
    · simp [same]
    · simp [same, Ne.symm same]

theorem retainReplace (supplied : Supplied w owed) {old : UInt16}
    (stored : (w.publishMsgStore.add x frame qos 2 heap).1 = true)
    (held : w.retainedSubMsg.get topic = .ok (some old)) (room : Room w.publishMsgStore x) :
    Supplied { (((w.log (.retain topic frame qos x)).stored x frame qos 2 heap).log (.retaining x)).forget old with
      retainedSubMsg := w.retainedSubMsg.rewritten topic x } owed := by
  let entered := ((w.log (.retain topic frame qos x)).stored x frame qos 2 heap).log (.retaining x)
  have member := supplied.sound.get_some.mp held
  obtain ⟨rest, before, after⟩ := supplied.sound.nodes_rewritten member x
  have exchanged (y : UInt16) : (w.retainedSubMsg.rewritten topic x).nodes.countP (·.data = y) +
      (if y = old then 1 else 0) = kept w y + if y = x then 1 else 0 := by
    have counted (l : List (Node UInt16)) :
        l.countP (·.data = y) = (l : Multiset (Node UInt16)).countP (y = ·.data) := by
      simp [Multiset.coe_countP, eq_comm]
    rw [kept, counted, counted, before, after, Multiset.countP_cons, Multiset.countP_cons]
    dsimp only
    omega
  refine ⟨Covered.forget (w := entered) (supplied.entered room stored) fun y _ => ?_, supplied.sound.rewritten member x⟩
  have changed := exchanged y
  have same : references (entered.forget old) y = references w y := references_congr (forget_items old)
  change references (entered.forget old) y + (w.retainedSubMsg.rewritten topic x).nodes.countP (·.data = y) +
    guards owed y + _ ≤ _
  rw [same, need]
  by_cases new : y = x
  · rw [if_pos new] at changed ⊢
    omega
  · rw [if_neg new] at changed ⊢
    omega

end Supplied

theorem supplied_act (act : MessageAct w owed w' owed') (provides : ∀ e ∈ w'.trace, Provides e)
    (supplied : Supplied w owed) : Supplied w' owed' := by
  have two : (2 : UInt8) ≠ 0 := by decide
  cases act with
  | start sock =>
    exact supplied.still rfl rfl fun x => (Nat.add_right_cancel_iff.mpr (references_started sock)).le
  | accept sock qos packetId topic frame =>
    refine supplied.still rfl rfl fun x => ?_
    rw [guards_unstamped awaiting_unstamped, guards_unstamped (List.forall_mem_nil _)]
    exact (Nat.add_right_cancel_iff.mpr (references_congr rfl)).le
  | unheard | unknown | send | matched | resend => exact supplied.same rfl rfl rfl
  | enter m qos heap _ stamp kept =>
    have distributed : Supplied (w.log (.distributing m.publisher m.topic m.frame qos m.packetId)) _ :=
      supplied.same rfl rfl rfl
    obtain ⟨i, found⟩ := Option.isSome_iff_exists.mp kept
    exact distributed.enter awaiting_unstamped (Option.isSome_of_eq_some stamp)
      (provides (.adding _ _ _ _ _ _) List.mem_cons_self) found
  | @refuse w packetId topic frame qos heap publisher =>
    have distributed : Supplied (w.log (.distributing publisher topic frame qos packetId)) _ :=
      supplied.same rfl rfl rfl
    obtain ⟨room, -⟩ : Provides (.adding w.socks w.publishMsgStore packetId frame qos
      (w.publishMsgStore.add packetId frame qos 1 heap).1) := provides _ List.mem_cons_self
    refine distributed.stored (by decide) room fun x => ?_
    rw [guards_unstamped (List.forall_mem_nil _)]
    exact Nat.zero_le _
  | readd packetId y frame qos heap found same absent =>
    exact absurd absent (no_readd supplied.covered.findable found same)
  | enqueue m qos _ _ _ _ _ _ added found =>
    exact supplied.enqueue added found (provides (.counting _) List.mem_cons_self)
  | retire m stamped found => exact supplied.retire stamped found
  | retainRefused packetId topic frame qos heap =>
    have noted : Supplied (w.log (.retain topic frame qos packetId)) owed := supplied.same rfl rfl rfl
    obtain ⟨room, -⟩ : Provides (.adding w.socks w.publishMsgStore packetId frame qos
      (w.publishMsgStore.add packetId frame qos 2 heap).1) := provides _ List.mem_cons_self
    exact noted.stored two room fun _ => le_rfl
  | retainNew packetId frame qos heap stored fresh added =>
    obtain ⟨room, -⟩ : Provides (.adding w.socks w.publishMsgStore packetId frame qos
      (w.publishMsgStore.add packetId frame qos 2 heap).1) :=
      provides _ (List.mem_cons_of_mem _ (List.mem_cons_of_mem _ List.mem_cons_self))
    exact supplied.retainNew stored fresh added room
  | retainReplace packetId frame qos heap stored held =>
    obtain ⟨room, -⟩ : Provides (.adding w.socks w.publishMsgStore packetId frame qos
      (w.publishMsgStore.add packetId frame qos 2 heap).1) :=
      provides _ (logged_grown ⟨_, forget_trace _⟩ (List.mem_cons_of_mem _ List.mem_cons_self))
    exact supplied.retainReplace stored held room
  | deliver sock qos _ found added =>
    have counted := supplied.enqueue added found
      (provides (.counting _) (List.mem_cons_of_mem _ List.mem_cons_self))
    exact counted.same rfl rfl rfl
  | incoming sock kind _ _ added =>
    obtain ⟨store, -, retained⟩ := itemAdded_frame added
    refine supplied.still store retained fun x => ?_
    have more := references_added_le (x := x) added
    rw [share_uncounted] at more
    · omega
    · rcases kind with ⟨state, -⟩ | ⟨state, -⟩ <;> simp [state, PacketState.Counted]
  | reply sock bytes f at_i _ _ advances =>
    obtain ⟨old, new, -⟩ := advances.kept
    exact (supplied.setItem at_i fun x => by rw [share_uncounted old, share_uncounted new]).same rfl rfl rfl
  | answer sock f at_i _ advances =>
    obtain ⟨old, new, -⟩ := advances.kept
    exact (supplied.setItem at_i fun x => by rw [share_uncounted old, share_uncounted new]).same rfl rfl rfl
  | @await _ _ sock i item qos at_i counted =>
    refine supplied.setItem at_i fun x => ?_
    have still : (if qos = 1 then PacketState.getpuback else .getpubrec).Counted := by
      by_cases one : qos = 1 <;> simp [one, PacketState.Counted]
    simp only [share, Refers, still, counted]
  | release sock packetId f at_i counted live id releases =>
    have same : packetId = _ := id.elim (·) fun held =>
      held.elim fun j both => both.2.trans (supplied.covered.findable.shaped.get_id both.1)
    subst same
    refine supplied.release at_i counted fun x => ?_
    rcases releases.kept.1 with free | ⟨-, uncounted⟩
    · exact share_free free
    · exact share_uncounted uncounted
  | @abandon _ _ sock i j item at_i counted live found =>
    rw [nodeAt, supplied.covered.findable.shaped.get_id found]
    have reported : Supplied (w.log (.unsent item)) owed := supplied.same rfl rfl rfl
    exact reported.release (f := ({ · with packetId := 0 })) at_i counted fun x => share_free rfl

end Steps

/-! ### Runs -/

theorem supplied_initial (boot : Boot) : Supplied (initial boot) [] := by
  have empty : Placed 5 (ofPower 5).slots := placed_replicate (by decide) (by decide)
  refine ⟨⟨findable_initial boot, empty, fun x _ => ?_⟩, Myhashmap.sound_ofCapacity Nat.one_pos⟩
  have none : references (initial boot) x = 0 := Finset.sum_eq_zero fun _ _ => rfl
  rw [need, none, guards_unstamped (List.forall_mem_nil _)]
  exact Nat.zero_le _

theorem reached_supplied {w : World} (reachable : Reachable w) (provides : ∀ e ∈ w.trace, Provides e) :
    Supplied w [] :=
  reachable.messages Provides Supplied supplied_initial
    (fun same supplied => supplied.same same.store same.retained same.items) supplied_act provides

/-- In such a run the counts of an id add up to as many as the items and topics that
refer to it at least, and what an item or a topic refers to is found in the
table, in a slot that is taken. -/
theorem nothing_dangles {w : World} (reachable : Reachable w) (provides : ∀ e ∈ w.trace, Provides e) {x : UInt16}
    (used : x ≠ 0) : references w x + kept w x ≤ weight w.publishMsgStore.slots x ∧
      (references w x + kept w x ≠ 0 → ∃ i, w.publishMsgStore.get x = some i ∧ (w.nodeAt i).Live) := by
  have supplied := reached_supplied reachable provides
  have none : guards [] x = 0 := guards_unstamped (List.forall_mem_nil _)
  have all : need w [] x = references w x + kept w x := by rw [need, none, Nat.add_zero]
  refine ⟨all ▸ supplied.covered.enough x used, fun referred => ?_⟩
  obtain ⟨i, found⟩ := supplied.covered.found used (all ▸ referred)
  exact ⟨i, found, get_live supplied.covered.placed found used⟩

/-- A message of QoS 1 is retained on its topic and waits to be sent to a
subscriber. -/
theorem retained_message_there : ∃ w, Reachable w ∧ references w 5 = 1 ∧ kept w 5 = 1 ∧
    2 ≤ weight w.publishMsgStore.slots 5 ∧ ∃ i, w.publishMsgStore.get 5 = some i ∧ (w.nodeAt i).Live := by
  obtain ⟨w, -, reachable, shown⟩ := reached_run .clean
    [accepting 1, reading 1 (connectPacket [97] 2), subscribing 1 [116] 1,
      reading 1 (some (publishPacket 0x33 [116] [5, 0, 1]))]
    (fun w => decide (∀ e ∈ w.trace, Provides e) && decide (references w 5 = 1 ∧ kept w 5 = 1)) (by decide +kernel)
  simp only [Bool.and_eq_true, decide_eq_true_eq] at shown
  obtain ⟨provides, one, topic⟩ := shown
  obtain ⟨enough, found⟩ := nothing_dangles reachable provides (by decide : (5 : UInt16) ≠ 0)
  rw [one, topic] at enough found
  exact ⟨w, reachable, one, topic, enough, found (by decide)⟩

end MqttBroker.Supply
