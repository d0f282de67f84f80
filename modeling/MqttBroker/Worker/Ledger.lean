import Mathlib.Algebra.BigOperators.Fin
import MqttBroker.Logic.Bytes
import MqttBroker.PublishHashmapRefinement
import MqttBroker.Worker.Items

/-! The counts of the stored messages against what refers to them: the items
that have a message to send or wait for its acknowledgement, and the topics it
is retained on. -/
namespace MqttBroker.Ledger
open Worker World PublishHashmap PublishHashmapRefinement

/-! ### The table -/

/-- The table has one live node of each id for which `n` is not 0, with that
count, and no other. -/
def Holds (m : PublishHashmap) (n : UInt16 → Nat) : Prop :=
  ∃ entries, Represents m entries ∧ ∀ x, n x = ((entries x).map (·.count.toNat)).getD 0

/-- The counts of the live nodes of an id. -/
def countsOf (m : PublishHashmap) (x : UInt16) : List Nat :=
  (m.slots.filter fun node => node.Live ∧ node.pubpackId = x).map (·.count.toNat)

section Table
variable {m : PublishHashmap} {entries : Entries} {n n' : UInt16 → Nat} {x : UInt16} {i : Nat}
  {node : NodePubmap}

theorem live_toNat (live : node.Live) : node.count.toNat ≠ 0 :=
  fun zero => live (UInt8.toNat_inj.mp zero)

theorem entry_live (rep : Represents m entries) (held : entries x = some node) : node.Live := by
  have key := rep.keyed x node held
  obtain ⟨_, -, live⟩ := mem_taken.mp ((rep.holds node).mpr (by rw [key, held]))
  exact live

/-- An id has an entry exactly if its count is not 0. -/
theorem count_zero_iff (rep : Represents m entries)
    (exact : ∀ x, n x = ((entries x).map (·.count.toNat)).getD 0) : n x = 0 ↔ entries x = none := by
  rw [exact]
  cases held : entries x with
  | none => simp
  | some node => simpa using live_toNat (entry_live rep held)

theorem Holds.congr (holds : Holds m n) (same : ∀ x, n' x = n x) : Holds m n' := by
  obtain ⟨entries, rep, exact⟩ := holds
  exact ⟨entries, rep, fun x => (same x).trans (exact x)⟩

theorem holds_empty : Holds (.ofPower 5) fun _ => 0 :=
  ⟨fun _ => none, history_represents (by decide) (by decide) .empty, fun _ => rfl⟩

/-- Two live nodes have different ids. -/
theorem countsOf_eq (holds : Holds m n) (x : UInt16) : countsOf m x = if n x = 0 then [] else [n x] := by
  obtain ⟨entries, rep, exact⟩ := holds
  have member (node : NodePubmap) :
      node ∈ m.slots.filter (fun node => node.Live ∧ node.pubpackId = x) ↔ entries x = some node := by
    have held := rep.holds node
    rw [taken, Multiset.mem_filter, Multiset.mem_coe] at held
    rw [List.mem_filter, decide_eq_true_eq, ← and_assoc, held]
    constructor
    · rintro ⟨held, rfl⟩
      exact held
    · intro held
      have key := rep.keyed x node held
      exact ⟨by rw [key, held], key⟩
  have short : (m.slots.filter fun node => node.Live ∧ node.pubpackId = x).length ≤ 1 := by
    have once := Multiset.nodup_iff_count_le_one.mp rep.single x
    rw [Multiset.count_map, taken, Multiset.filter_filter, Multiset.filter_coe, Multiset.coe_card] at once
    refine (List.Sublist.length_le (List.monotone_filter_right _ fun node kept => ?_)).trans once
    simp only [decide_eq_true_eq] at kept ⊢
    exact ⟨kept.2.symm, kept.1⟩
  unfold countsOf
  rcases shape : m.slots.filter (fun node => node.Live ∧ node.pubpackId = x) with _ | ⟨node, _ | ⟨second, rest⟩⟩
  · have none : entries x = none := by
      refine Option.eq_none_iff_forall_ne_some.mpr fun node held => ?_
      have among := (member node).mpr held
      rw [shape] at among
      cases among
    rw [shape, if_pos ((count_zero_iff rep exact).mpr none)]
    rfl
  · have held := (member node).mp (shape ▸ List.mem_singleton_self node)
    have positive : n x ≠ 0 := by
      rw [Ne, count_zero_iff rep exact, held]
      exact Option.some_ne_none node
    rw [shape, if_neg positive, exact, held]
    rfl
  · rw [shape] at short
    simp at short

/-- A message comes under an id that no live node has. -/
theorem Holds.add (holds : Holds m n) (fresh : ∀ node ∈ m.slots, node.Live → node.pubpackId ≠ x)
    (room : Room m x) {count : UInt8} (counted : count ≠ 0) (frame : List UInt8) (qos : UInt8) (heap : Heap) :
    n x = 0 ∧ Holds (m.add x frame qos count heap).2.1
      (if (m.add x frame qos count heap).1 then Function.update n x count.toNat else n) := by
  obtain ⟨entries, rep, exact⟩ := holds
  have absent : entries x = none := by
    refine Option.eq_none_iff_forall_ne_some.mpr fun node held => ?_
    have key := rep.keyed x node held
    have among := (rep.holds node).mpr (by rw [key, held])
    rw [taken, Multiset.mem_filter, Multiset.mem_coe] at among
    exact fresh node among.1 among.2 key
  refine ⟨(count_zero_iff rep exact).mpr absent, ?_⟩
  obtain ⟨placed, added⟩ := add_spec rep.placed rep.bounded room frame qos counted heap
  refine ⟨_, rep.added added placed absent, fun y => ?_⟩
  cases (m.add x frame qos count heap).1 with
  | false => exact exact y
  | true =>
    by_cases same : y = x
    · subst same
      simp
    · simp [Function.update_of_ne same, exact y]

/-- An id other than 0 is found in a live node, which has its count. -/
theorem Holds.found (holds : Holds m n) (found : m.get x = some i) (used : x ≠ 0) :
    (slotAt m.slots i).Live ∧ n x = (slotAt m.slots i).count.toNat := by
  obtain ⟨entries, rep, exact⟩ := holds
  have live := get_live rep.placed found used
  refine ⟨live, ?_⟩
  rw [exact, rep.found found live]
  rfl

theorem Holds.get_id (holds : Holds m n) (found : m.get x = some i) : (slotAt m.slots i).pubpackId = x := by
  obtain ⟨entries, rep, -⟩ := holds
  exact rep.placed.shaped.get_id found

theorem Holds.absent (holds : Holds m n) (none : m.get x = none) : n x = 0 := by
  obtain ⟨entries, rep, exact⟩ := holds
  exact (count_zero_iff rep exact).mpr (rep.absent none)

theorem Holds.recount (holds : Holds m n) (found : m.get x = some i) (used : x ≠ 0) {count : UInt8}
    (counted : count ≠ 0) :
    Holds { m with slots := m.slots.set i { slotAt m.slots i with count := count } }
      (Function.update n x count.toNat) := by
  obtain ⟨entries, rep, exact⟩ := holds
  refine ⟨_, rep.recount found (get_live rep.placed found used) counted, fun y => ?_⟩
  by_cases same : y = x
  · subst same
    simp
  · simp [Function.update_of_ne same, exact y]

theorem Holds.up (holds : Holds m n) (found : m.get x = some i) (used : x ≠ 0)
    (room : (slotAt m.slots i).count ≠ 255) :
    Holds { m with slots := m.slots.set i { slotAt m.slots i with count := (slotAt m.slots i).count + 1 } }
      (Function.update n x (n x + 1)) := by
  have up := Logic.toNat_up room
  have counted : (slotAt m.slots i).count + 1 ≠ 0 := by
    intro zero
    rw [zero] at up
    exact absurd up (Nat.succ_ne_zero _).symm
  rw [(holds.found found used).2, ← up]
  exact holds.recount found used counted

/-- A count goes down, and at 0 its node is erased. -/
theorem Holds.down (holds : Holds m n) (found : m.get x = some i) (used : x ≠ 0) {lowered : PublishHashmap}
    (same : lowered =
      { m with slots := m.slots.set i { slotAt m.slots i with count := (slotAt m.slots i).count - 1 } }) :
    Holds (if (slotAt m.slots i).count - 1 = 0 then lowered.erase x else lowered)
      (Function.update n x (n x - 1)) := by
  obtain ⟨live, exactly⟩ := holds.found found used
  have down := Logic.toNat_down live
  by_cases last : (slotAt m.slots i).count - 1 = 0
  · rw [if_pos last, exactly, ← down, last]
    have still : lowered.get x = some i := by
      rw [same]
      exact (get_set m i { slotAt m.slots i with count := (slotAt m.slots i).count - 1 } rfl x).trans found
    have erased : lowered.erase x = m.erase x := by
      rw [erase_some still, erase_some found, same]
      dsimp only
      rw [List.set_set]
    obtain ⟨entries, rep, exact⟩ := holds
    rw [erased]
    refine ⟨_, represents_erase rep fun zero => absurd zero used, fun y => ?_⟩
    by_cases at_y : y = x
    · subst at_y
      simp [Entries.call]
    · simp [Entries.call, Function.update_of_ne at_y, exact y]
  · rw [if_neg last, same, exactly, ← down]
    exact holds.recount found used last

end Table

/-! ### The items -/

/-- The item holds a count of message `x`. -/
def Refers (x : UInt16) (item : PackidStateItem) : Prop :=
  item.packetId = x ∧ item.packetId ≠ 0 ∧ item.state.Counted

instance (x : UInt16) : DecidablePred (Refers x) := fun _ => inferInstanceAs (Decidable (_ ∧ _ ∧ _))

/-- How many items of all sockets hold a count of message `x`. -/
def references (w : World) (x : UInt16) : Nat := ∑ sock, (w.items sock).countP (Refers x)

/-- How many topics message `x` is retained on. -/
def kept (w : World) (x : UInt16) : Nat := w.retainedSubMsg.nodes.countP (·.data = x)

/-- A message that something refers to has one live node, which counts it all; a
message that nothing refers to has none. -/
def Exact (w : World) : Prop :=
  ∀ x, countsOf w.publishMsgStore x =
    if references w x + kept w x = 0 then [] else [references w x + kept w x]

/-- What may happen to the counts: a message comes to a table that has room for it
and no node with its id, which is not 0, and is not retained; no item that counts
is lost; no count goes up from 255; no PUBACK or PUBREC has id 0. -/
def Balanced : Event → Prop
  | .adding _ store x _ _ _ => x ≠ 0 ∧ Room store x ∧ ∀ node ∈ store.slots, node.Live → node.pubpackId ≠ x
  | .retaining _ => False
  | .lost item => ¬ item.state.Counted
  | .counting node => node.count ≠ 255
  | .acked _ _ x item => item.state.Counted → x ≠ 0
  | _ => True

instance : DecidablePred Balanced := fun e => by
  rcases e with ⟨⟩ <;> dsimp only [Balanced] <;> infer_instance

section Items
variable {w w' : World} {sock : Fin 64} {item : PackidStateItem} {i : Nat} {x : UInt16}
  {f : PackidStateItem → PackidStateItem}

/-- The count that an item holds of message `x`. -/
def share (x : UInt16) (item : PackidStateItem) : Nat := (decide (Refers x item)).toNat

theorem share_self (used : item.packetId ≠ 0) (counted : item.state.Counted) :
    share x item = if x = item.packetId then 1 else 0 := by
  by_cases same : x = item.packetId
  · subst same
    simp [share, Refers, used, counted]
  · simp [share, Refers, same, Ne.symm same]

theorem share_free (free : item.packetId = 0) : share x item = 0 := by
  simp [share, Refers, free]

theorem share_uncounted (uncounted : ¬ item.state.Counted) : share x item = 0 := by
  simp [share, Refers, uncounted]

theorem references_congr (same : w'.items = w.items) : references w' x = references w x := by
  simp only [references, same]

theorem references_stored {e : Event} {id : UInt16} {frame : List UInt8} {qos count : UInt8} {heap : Heap} :
    references ((w.log e).stored id frame qos count heap) x = references w x :=
  references_congr rfl

/-- A new session leaves the items of the socket. -/
theorem references_started (sock : Fin 64) :
    references { (w.log (.started sock (w.items sock))).setSock sock ({ · with tls := w.nextTls }) with
      nextTls := w.nextTls + 1 } x = references w x := by
  refine references_congr (funext fun s => ?_)
  by_cases here : s = sock
  · subst here
    simp only [World.items, setSock_socks]
    rfl
  · simp only [World.items, setSock_other _ _ here]
    rfl

theorem references_changed (others : ∀ s, s ≠ sock → w'.items s = w.items s) :
    references w' x + (w.items sock).countP (Refers x) = references w x + (w'.items sock).countP (Refers x) := by
  have changed := Logic.sum_changed (f := fun s => (w.items s).countP (Refers x))
    (g := fun s => (w'.items s).countP (Refers x)) sock fun s other => by simp only [others s other]
  simp only [references]
  exact changed

theorem references_setItem (at_i : (w.items sock)[i]? = some item) :
    references (w.setItem sock i f) x + share x item = references w x + share x (f item) := by
  have changed : references (w.setItem sock i f) x + _ = _ :=
    references_changed fun s other => items_setItem_other other
  have here := Logic.countP_modify (p := fun item => decide (Refers x item)) (f := f) at_i
  rw [items_setItem] at changed
  unfold share
  omega

theorem references_pushed (sock : Fin 64) (here : w'.items sock = w.items sock ++ [item])
    (others : ∀ s, s ≠ sock → w'.items s = w.items s) : references w' x = references w x + share x item := by
  have changed := references_changed (x := x) others
  have one : [item].countP (fun item => decide (Refers x item)) = share x item := by
    rw [List.countP_singleton, share]
    cases decide (Refers x item) <;> rfl
  rw [here, List.countP_append, one] at changed
  omega

/-- An item that is added brings its share, for one that is lost has none. -/
theorem references_added (added : ItemAdded w sock item w') (balanced : ∀ e ∈ w'.trace, Balanced e) :
    references w' x = references w x + share x item := by
  cases added with
  | @reused i old at_i free =>
    have changed := references_setItem (x := x) (f := fun _ => item) at_i
    rw [share_free free, Nat.add_zero] at changed
    have same : ((w.log (.enqueued w.socks sock i item)).setItem sock i fun _ => item).items =
      (w.setItem sock i fun _ => item).items := rfl
    exact (references_congr same).trans changed
  | pushed =>
    refine references_pushed sock ?_ fun s other => ?_
    · simp only [World.items, setSock_socks]
    · simp only [World.items, setSock_other _ _ other]
      rfl
  | lost =>
    have uncounted : ¬ item.state.Counted := balanced (.lost item) List.mem_cons_self
    rw [share_uncounted uncounted, Nat.add_zero]
    exact references_congr rfl

end Items

/-! ### One step -/

/-- How many messages in the hands of `publish_by_topic` have the first count of
message `x`. -/
def guards (owed : List Admitted) (x : UInt16) : Nat :=
  owed.countP fun m => m.stamp.isSome ∧ m.packetId = x

/-- Every count is accounted for, in the middle of a turn too, and nothing is
retained. -/
structure Settled (w : World) (owed : List Admitted) : Prop where
  holds : Holds w.publishMsgStore fun x => references w x + guards owed x
  retained : w.retainedSubMsg = (Myhashmap.ofCapacity 1 []).1
  named : ∀ m ∈ owed, m.stamp.isSome → m.packetId ≠ 0

section Steps
variable {w w₁ w' : World} {owed owed' : List Admitted} {sock : Fin 64} {item : PackidStateItem} {i : Nat}
  {x : UInt16} {f : PackidStateItem → PackidStateItem} {n : UInt16 → Nat}

theorem guards_unstamped (none : ∀ m ∈ owed, m.stamp = none) : guards owed x = 0 := by
  refine List.countP_eq_zero.mpr fun m member => ?_
  simp [none m member]

theorem guards_stamped {m : Admitted} (stamped : m.stamp.isSome) :
    guards [m] x = if x = m.packetId then 1 else 0 := by
  by_cases same : x = m.packetId
  · subst same
    simp [guards, stamped]
  · simp [guards, same, Ne.symm same]

theorem awaiting_unstamped {publisher : Option Publisher} {packetId : UInt16} {topic frame : List UInt8} :
    ∀ m ∈ awaiting publisher packetId topic frame, m.stamp = none := by
  cases publisher with
  | none => exact List.forall_mem_nil _
  | some => exact List.forall_mem_singleton.mpr rfl

theorem Holds.forget (holds : Holds w.publishMsgStore n) (used : x ≠ 0) (held : n x ≠ 0) :
    Holds (w.forget x).publishMsgStore (Function.update n x (n x - 1)) := by
  unfold World.forget
  cases found : w.publishMsgStore.get x with
  | none => exact absurd (holds.absent found) held
  | some i => exact holds.down found used rfl

/-- A step that changes no count and no reference. -/
theorem Settled.same (settled : Settled w owed) (store : w'.publishMsgStore = w.publishMsgStore)
    (retained : w'.retainedSubMsg = w.retainedSubMsg) (items : ∀ x, references w' x = references w x) :
    Settled w' owed := by
  refine ⟨?_, retained.trans settled.retained, settled.named⟩
  rw [store]
  exact settled.holds.congr fun x => by rw [items]

/-- An item that holds no count is changed to one that holds none. -/
theorem Settled.setItem (settled : Settled w owed) (at_i : (w.items sock)[i]? = some item)
    (shares : ∀ x, share x (f item) = share x item) : Settled (w.setItem sock i f) owed :=
  settled.same rfl rfl fun x => by
    have changed := references_setItem (x := x) (f := f) at_i
    have same := shares x
    omega

/-- An item is done with its message, which is counted down. -/
theorem Settled.release (settled : Settled w owed) (at_i : (w.items sock)[i]? = some item)
    (used : item.packetId ≠ 0) (counted : item.state.Counted) (gone : ∀ x, share x (f item) = 0) :
    Settled ((w.setItem sock i f).forget item.packetId) owed := by
  have changed (x : UInt16) :
      references w x = references (w.setItem sock i f) x + if x = item.packetId then 1 else 0 := by
    have changed := references_setItem (x := x) (f := f) at_i
    rw [gone, share_self used counted] at changed
    omega
  have retained : ((w.setItem sock i f).forget item.packetId).retainedSubMsg = w.retainedSubMsg := by
    unfold World.forget
    split <;> rfl
  refine ⟨?_, retained.trans settled.retained, settled.named⟩
  have positive : references w item.packetId + guards owed item.packetId ≠ 0 := by
    rw [changed, if_pos rfl]
    omega
  have down := Holds.forget (w := w.setItem sock i f) settled.holds used positive
  refine down.congr fun x => ?_
  rw [references_congr (forget_items _)]
  by_cases same : x = item.packetId
  · subst same
    rw [Function.update_self, changed, if_pos rfl]
    omega
  · rw [Function.update_of_ne same, changed, if_neg same]
    omega

/-- A message comes to the table, with one count for `publish_by_topic`. -/
theorem Settled.stored (settled : Settled w owed) (none : ∀ m ∈ owed, m.stamp = none) {frame : List UInt8}
    {qos : UInt8} {heap : Heap}
    (balanced : Balanced (.adding w.socks w.publishMsgStore x frame qos (w.publishMsgStore.add x frame qos 1 heap).1)) :
    x ≠ 0 ∧ references w x = 0 ∧
      Holds (w.stored x frame qos 1 heap).publishMsgStore
        (if (w.publishMsgStore.add x frame qos 1 heap).1 then Function.update (references w) x 1
          else references w) := by
  obtain ⟨used, room, fresh⟩ := balanced
  have holds : Holds w.publishMsgStore (references w) :=
    settled.holds.congr fun y => by rw [guards_unstamped none, Nat.add_zero]
  obtain ⟨zero, added⟩ := holds.add fresh room (by decide : (1 : UInt8) ≠ 0) frame qos heap
  exact ⟨used, zero, added⟩

/-- The item that `publish_by_topic` has made is counted. -/
theorem Settled.enqueue (settled : Settled w owed) {m : Admitted} (member : m ∈ owed) (stamped : m.stamp.isSome)
    (added : ItemAdded w sock item w₁) (id : item.packetId = m.packetId) (fresh : item.state = .sendpublish)
    (found : w.publishMsgStore.get m.packetId = some i) (balanced : ∀ e ∈ (w₁.countUp i).trace, Balanced e) :
    Settled (w₁.countUp i) owed := by
  obtain ⟨store, -, retained⟩ := itemAdded_frame added
  have used : item.packetId ≠ 0 := id ▸ settled.named m member stamped
  have room : (w₁.nodeAt i).count ≠ 255 := balanced (.counting (w₁.nodeAt i)) List.mem_cons_self
  have node : w₁.nodeAt i = slotAt w.publishMsgStore.slots i := by rw [nodeAt, store]
  rw [node] at room
  rw [← id] at found
  have up := settled.holds.up found used room
  have counted : (w₁.countUp i).publishMsgStore = (w.countUp i).publishMsgStore := by
    simp only [World.countUp, nodeAt, store]
  refine ⟨?_, retained.trans settled.retained, settled.named⟩
  rw [counted]
  refine up.congr fun x => ?_
  have grown : references (w₁.countUp i) x = references w x + share x item := by
    rw [← references_added added fun e among => balanced e (List.mem_cons_of_mem _ among)]
    exact references_congr rfl
  rw [grown, share_self used (.inl fresh)]
  by_cases same : x = item.packetId
  · subst same
    rw [Function.update_self, if_pos rfl]
    omega
  · rw [Function.update_of_ne same, if_neg same]
    omega

/-- `publish_by_topic` gives its count back. -/
theorem Settled.retire {m : Admitted} (settled : Settled w [m]) (stamped : m.stamp.isSome)
    (found : w.publishMsgStore.get m.packetId = some i) : Settled (w.countDown i m.packetId) [] := by
  have used := settled.named m (List.mem_singleton_self m) stamped
  have down := settled.holds.down found used (rfl : w.lowered i = _)
  refine ⟨down.congr fun x => ?_, settled.retained, List.forall_mem_nil _⟩
  have same : references (w.countDown i m.packetId) x = references w x := references_congr rfl
  rw [same, guards_unstamped (List.forall_mem_nil _)]
  by_cases same : x = m.packetId
  · subst same
    rw [Function.update_self, guards_stamped stamped, if_pos rfl]
    omega
  · rw [Function.update_of_ne same, guards_stamped stamped, if_neg same]

/-- An acknowledgement that is accepted finds no free item. -/
theorem used_of_live (balanced : ∀ e ∈ w.trace, Balanced e) (live : Live w sock item)
    (counted : item.state.Counted) : item.packetId ≠ 0 := by
  rcases live with used | ⟨conn, acked⟩
  · exact used
  · exact balanced (.acked sock conn item.packetId item) acked counted

theorem settled_act (act : MessageAct w owed w' owed') (balanced : ∀ e ∈ w'.trace, Balanced e)
    (settled : Settled w owed) : Settled w' owed' := by
  have before := meets_before (messageAct_trace act) balanced
  cases act with
  | start sock => exact settled.same rfl rfl fun _ => references_started sock
  | unheard | unknown | send | matched | resend => exact settled.same rfl rfl fun _ => references_congr rfl
  | accept sock qos packetId topic frame =>
    have same : Settled (w.log (.publishing sock (w.socks sock) qos packetId topic frame)) [] :=
      settled.same rfl rfl fun _ => references_congr rfl
    refine ⟨same.holds.congr fun x => ?_, same.retained, ?_⟩
    · rw [guards_unstamped awaiting_unstamped, guards_unstamped (List.forall_mem_nil _)]
    · intro m member stamped
      rw [awaiting_unstamped m member] at stamped
      cases stamped
  | enter m qos heap _ stamp kept =>
    obtain ⟨used, zero, holds⟩ := settled.stored awaiting_unstamped
      (balanced (.adding w.socks w.publishMsgStore m.packetId m.frame qos _) List.mem_cons_self)
    obtain ⟨i, found⟩ := Option.isSome_iff_exists.mp kept
    obtain ⟨live, counted⟩ := holds.found found used
    have stamped : m.stamp.isSome := Option.isSome_of_eq_some stamp
    cases stored : (w.publishMsgStore.add m.packetId m.frame qos 1 heap).1 with
    | false =>
      rw [stored, if_neg Bool.false_ne_true, zero] at counted
      exact absurd counted.symm (live_toNat live)
    | true =>
      rw [stored, if_pos rfl] at holds
      refine ⟨holds.congr fun x => ?_, settled.retained, List.forall_mem_singleton.mpr fun _ => used⟩
      rw [references_stored, guards_stamped stamped]
      by_cases same : x = m.packetId
      · subst same
        rw [Function.update_self, zero, if_pos rfl]
      · rw [Function.update_of_ne same, if_neg same]
        omega
  | refuse packetId topic frame qos heap _ absent =>
    obtain ⟨used, zero, holds⟩ := settled.stored awaiting_unstamped
      (balanced (.adding w.socks w.publishMsgStore packetId frame qos _) List.mem_cons_self)
    have gone := holds.absent absent
    cases stored : (w.publishMsgStore.add packetId frame qos 1 heap).1 with
    | true =>
      rw [stored, if_pos rfl, Function.update_self] at gone
      exact absurd gone Nat.one_ne_zero
    | false =>
      rw [stored, if_neg Bool.false_ne_true] at holds
      refine ⟨holds.congr fun x => ?_, settled.retained, List.forall_mem_nil _⟩
      rw [references_stored, guards_unstamped (List.forall_mem_nil _)]
      omega
  | readd packetId y frame qos heap found same absent =>
    refine absurd absent ?_
    rw [← same, nodeAt, settled.holds.get_id found, found]
    exact Option.some_ne_none _
  | enqueue m qos stamped member _ _ _ _ added found =>
    exact settled.enqueue member (Option.isSome_of_eq_some stamped) added rfl rfl found balanced
  | retire m stamped found => exact settled.retire stamped found
  | retainRefused packetId topic frame qos heap refused none =>
    obtain ⟨used, room, fresh⟩ : Balanced (.adding w.socks w.publishMsgStore packetId frame qos _) :=
      balanced _ List.mem_cons_self
    have added := (settled.holds.add fresh room (by decide : (2 : UInt8) ≠ 0) frame qos heap).2
    rw [refused, if_neg Bool.false_ne_true] at added
    refine ⟨added.congr fun x => ?_, settled.retained, settled.named⟩
    rw [references_stored]
  | retainNew packetId =>
    have never : Balanced (.retaining packetId) := balanced _ (List.mem_cons_of_mem _ List.mem_cons_self)
    exact never.elim
  | retainReplace packetId =>
    have never : Balanced (.retaining packetId) :=
      balanced _ (logged_grown ⟨_, forget_trace _⟩ List.mem_cons_self)
    exact never.elim
  | deliver _ _ kept =>
    rw [settled.retained] at kept
    exact ((Myhashmap.Yields.ofCapacity Nat.one_pos).get (P := fun _ => False) kept).elim
  | incoming sock kind _ _ added =>
    obtain ⟨store, -, retained⟩ := itemAdded_frame added
    refine settled.same store retained fun x => ?_
    rw [references_added added balanced, share_uncounted, Nat.add_zero]
    rcases kind with ⟨state, -⟩ | ⟨state, -⟩ <;> simp [state, PacketState.Counted]
  | reply sock bytes f at_i _ _ advances =>
    obtain ⟨old, new, -⟩ := advances.kept
    exact (settled.setItem at_i fun x => by rw [share_uncounted old, share_uncounted new]).same rfl rfl
      fun _ => references_congr rfl
  | answer sock f at_i _ advances =>
    obtain ⟨old, new, -⟩ := advances.kept
    exact (settled.setItem at_i fun x => by rw [share_uncounted old, share_uncounted new]).same rfl rfl
      fun _ => references_congr rfl
  | @await _ _ sock i item qos at_i counted =>
    refine settled.setItem at_i fun x => ?_
    have still : (if qos = 1 then PacketState.getpuback else .getpubrec).Counted := by
      by_cases one : qos = 1 <;> simp [one, PacketState.Counted]
    simp only [share, Refers, still, counted]
  | release sock packetId f at_i counted live id releases =>
    have used := used_of_live before live counted
    have same : packetId = _ := id.elim (·) fun held =>
      held.elim fun j both => both.2.trans (settled.holds.get_id both.1)
    subst same
    refine settled.release at_i used counted fun x => ?_
    rcases releases.kept.1 with free | ⟨-, uncounted⟩
    · exact share_free free
    · exact share_uncounted uncounted
  | @abandon _ _ sock i j item at_i counted live found =>
    have used := used_of_live before live counted
    rw [nodeAt, settled.holds.get_id found]
    have reported : Settled (w.log (.unsent item)) owed := settled.same rfl rfl fun _ => references_congr rfl
    exact reported.release (f := ({ · with packetId := 0 })) at_i used counted fun x => share_free rfl

end Steps

/-! ### Runs -/

theorem settled_initial (boot : Boot) : Settled (initial boot) [] := by
  refine ⟨holds_empty.congr fun x => ?_, rfl, List.forall_mem_nil _⟩
  have none : references (initial boot) x = 0 := Finset.sum_eq_zero fun _ _ => rfl
  rw [none, guards_unstamped (List.forall_mem_nil _)]

/-- In a run whose events keep the balance, every count is exact. -/
theorem counts_exact {w : World} (reachable : Reachable w) (balanced : ∀ e ∈ w.trace, Balanced e) : Exact w := by
  have settled : Settled w [] := reachable.messages Balanced Settled settled_initial
    (fun same settled => settled.same same.store same.retained fun _ => references_congr same.items)
    settled_act balanced
  intro x
  have none : kept w x = 0 := by
    rw [kept, settled.retained]
    rfl
  rw [none, Nat.add_zero, countsOf_eq settled.holds, guards_unstamped (List.forall_mem_nil _), Nat.add_zero]

/-- A message of QoS 1 waits for the acknowledgement of one subscriber. -/
def unacknowledged : List (Message × Env) :=
  [accepting 1, reading 1 (connectPacket [97] 2), subscribing 1 [116] 1,
    reading 1 (some (publishPacket 0x32 [116] [5, 0, 1])), writing 1, writing 1]

theorem waiting_message_exact : ∃ w, Reachable w ∧ references w 5 = 1 ∧ countsOf w.publishMsgStore 5 = [1] ∧
    Exact w := by
  obtain ⟨w, -, reachable, shown⟩ := reached_run .clean unacknowledged
    (fun w => decide (∀ e ∈ w.trace, Balanced e) &&
      decide (references w 5 = 1 ∧ countsOf w.publishMsgStore 5 = [1])) (by decide +kernel)
  simp only [Bool.and_eq_true, decide_eq_true_eq] at shown
  obtain ⟨balanced, one, count⟩ := shown
  exact ⟨w, reachable, one, count, counts_exact reachable balanced⟩

/-- A retained message is added twice, and has two nodes for the one topic that
refers to it. -/
theorem retained_message_inexact : ∃ w, Reachable w ∧ references w 5 = 0 ∧ kept w 5 = 1 ∧
    countsOf w.publishMsgStore 5 = [1, 1] ∧ ¬ Exact w := by
  obtain ⟨w, -, reachable, shown⟩ := reached_run .clean
    [accepting 1, reading 1 (connectPacket [97] 2), reading 1 (some (publishPacket 0x33 [116] [5, 0, 1]))]
    (fun w => decide (references w 5 = 0 ∧ kept w 5 = 1 ∧ countsOf w.publishMsgStore 5 = [1, 1]))
    (by decide +kernel)
  obtain ⟨none, one, counts⟩ := of_decide_eq_true shown
  refine ⟨w, reachable, none, one, counts, fun exact => ?_⟩
  have single := exact 5
  rw [counts, none, one] at single
  exact absurd single (by decide)

end MqttBroker.Ledger
