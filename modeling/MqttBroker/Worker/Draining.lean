import MqttBroker.Worker.Runs

/-! The write branch serves what waits: one item an event, in index order, and
it asks for reads only when nothing waits any more. -/
namespace MqttBroker.Draining
open Logic Worker World PublishHashmap

variable {w w' : World} {sock : Fin 64} {front back items : List PackidStateItem} {item item' other : PackidStateItem}
  {i j : Nat} {x y : UInt16}

/-! ### The items that wait -/

/-- The items that wait, each with its index, where the first has index `i`. -/
def pending : Nat → List PackidStateItem → List (Nat × PackidStateItem)
  | _, [] => []
  | i, item :: rest =>
    if PackidStateItem.Pending item then (i, item) :: pending (i + 1) rest else pending (i + 1) rest

theorem pending_behind (idle : ∀ other ∈ front, ¬ PackidStateItem.Pending other) :
    pending i (front ++ items) = pending (i + front.length) items := by
  induction front generalizing i with
  | nil => rfl
  | cons other front ih =>
    rw [List.cons_append, pending, if_neg (idle other List.mem_cons_self),
      ih fun other member => idle other (List.mem_cons_of_mem _ member), List.length_cons]
    congr 1
    omega

theorem pending_nil : pending i items = [] ↔ ∀ item ∈ items, ¬ PackidStateItem.Pending item := by
  induction items generalizing i with
  | nil => simp [pending]
  | cons item rest ih =>
    rw [pending]
    split
    · rename_i waits
      simp [waits]
    · rename_i idle
      simp [ih, idle]

/-- The first item that waits, with what is in front of it and behind it. -/
theorem pending_cons {more : List (Nat × PackidStateItem)} (first : pending i items = (j, item) :: more) :
    ∃ front back, items = front ++ item :: back ∧ j = i + front.length ∧
      (∀ other ∈ front, ¬ PackidStateItem.Pending other) ∧ PackidStateItem.Pending item ∧
      more = pending (j + 1) back := by
  induction items generalizing i with
  | nil => cases first
  | cons other rest ih =>
    rw [pending] at first
    split at first
    · rename_i waits
      obtain ⟨⟨rfl, rfl⟩, rfl⟩ := by simpa using first
      exact ⟨[], rest, rfl, rfl, nofun, waits, rfl⟩
    · rename_i idle
      obtain ⟨front, back, rfl, rfl, before, waits, rfl⟩ := ih first
      refine ⟨other :: front, back, rfl, ?_, ?_, waits, rfl⟩
      · rw [List.length_cons]
        omega
      · intro one member
        rcases List.mem_cons.mp member with rfl | member
        · exact idle
        · exact before one member

/-! ### The loop -/

theorem writeLoop_idle (idle : ∀ item ∈ items, ¬ PackidStateItem.Pending item) :
    writeLoop sock i items none false w = .ok (false, w) := by
  induction items generalizing i with
  | nil => rfl
  | cons item rest ih =>
    rw [writeLoop, if_neg (idle item List.mem_cons_self), if_pos rfl]
    exact ih fun other member => idle other (List.mem_cons_of_mem _ member)

/-- Any item behind the one that is sent asks for another write. -/
theorem writeLoop_sent (waits : PackidStateItem.Pending item) :
    writeLoop sock i (item :: back) none false = (do
      transmit sock i item
      pure (decide (back ≠ []))) := by
  rw [writeLoop, if_pos waits, if_neg (by simp), if_neg (by simp)]
  congr 1
  funext _
  cases back with
  | nil => rfl
  | cons other back =>
    rw [writeLoop]
    by_cases also : PackidStateItem.Pending other <;> simp [also]

theorem writeLoop_found (idle : ∀ other ∈ front, ¬ PackidStateItem.Pending other)
    (waits : PackidStateItem.Pending item) :
    writeLoop sock i (front ++ item :: back) none false = (do
      transmit sock (i + front.length) item
      pure (decide (back ≠ []))) := by
  induction front generalizing i with
  | nil => exact writeLoop_sent waits
  | cons other front ih =>
    rw [List.cons_append, writeLoop, if_neg (idle other List.mem_cons_self), if_pos rfl,
      ih fun other member => idle other (List.mem_cons_of_mem _ member), List.length_cons, Nat.add_comm front.length 1,
      Nat.add_assoc]

/-! ### The table under the items -/

/-- An item for which a stored message is to be sent. -/
def Delivers (item : PackidStateItem) : Prop := item.packetId ≠ 0 ∧ item.state = .sendpublish

instance : DecidablePred Delivers := fun item =>
  inferInstanceAs (Decidable (item.packetId ≠ 0 ∧ item.state = .sendpublish))

/-- How many items refer to the message of an id. -/
def refs (items : List PackidStateItem) (x : UInt16) : Nat :=
  items.countP fun item => Delivers item ∧ item.packetId = x

/-- The table is a map that holds no empty message, and has what the items refer
to with a count of at least so many. -/
structure Backed (m : PublishHashmap) (items : List PackidStateItem) : Prop where
  placed : Placed m.powerOfCap m.slots
  filled : ∀ i, (slotAt m.slots i).Live → (slotAt m.slots i).data ≠ []
  counted : ∀ item ∈ items, Delivers item → ∃ i, m.get item.packetId = some i ∧
    refs items item.packetId ≤ (slotAt m.slots i).count.toNat

section Table
variable {m : PublishHashmap}

theorem refs_split (x : UInt16) :
    refs (front ++ item :: back) x =
      refs (front ++ back) x + if Delivers item ∧ item.packetId = x then 1 else 0 := by
  simp only [refs, List.countP_append, List.countP_cons, decide_eq_true_eq]
  omega

theorem refs_served (served : ¬ Delivers item') :
    refs (front ++ item' :: back) x = refs (front ++ back) x := by
  rw [refs_split, if_neg fun both => served both.1, Nat.add_zero]

/-- A message that is stored is not empty, where there is room for it. -/
theorem add_filled (placed : Placed m.powerOfCap m.slots) (bounded : m.size = m.capacity → m.powerOfCap < 32)
    (room : Room m x) (filled : ∀ i, (slotAt m.slots i).Live → (slotAt m.slots i).data ≠ []) (data : List UInt8)
    (qos : UInt8) {count : UInt8} (counted : count ≠ 0) (heap : Heap) (i : Nat)
    (live : (slotAt (m.add x data qos count heap).2.1.slots i).Live) :
    (slotAt (m.add x data qos count heap).2.1.slots i).data ≠ [] := by
  obtain ⟨-, added⟩ := add_spec placed bounded room data qos counted heap
  have member := mem_taken.mpr ⟨i, rfl, live⟩
  have old {node : NodePubmap} (held : node ∈ taken m.slots) : node.data ≠ [] := by
    obtain ⟨j, rfl, live⟩ := mem_taken.mp held
    exact filled j live
  generalize (m.add x data qos count heap).1 = ok at added
  cases added with
  | stored nonempty holds =>
    rw [holds, Multiset.mem_cons] at member
    rcases member with same | held
    · rw [same]
      exact nonempty
    · exact old held
  | refused holds =>
    rw [holds] at member
    exact old member

/-- A free slot with another id more does not change where an id is found. -/
theorem get_cleared {size : Nat} (placed : Placed m.powerOfCap m.slots) (found : m.get x = some i)
    (other : y ≠ x) (used : y ≠ 0) :
    ({ m with slots := m.slots.set i {}, size := size } : PublishHashmap).get y = m.get y := by
  have inside := get_lt placed found
  have id := get_id placed found
  have placed' : Placed m.powerOfCap (m.slots.set i {}) :=
    placed.set inside (fun live => absurd rfl live) fun _ => rfl
  have same (j : Nat) : (slotAt (m.slots.set i {}) j).pubpackId = y ↔ (slotAt m.slots j).pubpackId = y := by
    rw [slotAt_set inside]
    split
    · rename_i here
      subst here
      rw [id]
      exact iff_of_false used.symm other.symm
    · exact Iff.rfl
  rw [get_eq placed y, get_eq (m := { m with slots := m.slots.set i {}, size := size }) placed' y]
  simp only [same, List.length_set]

theorem mem_served (member : other ∈ front ++ item' :: back) (delivers : Delivers other) (served : ¬ Delivers item') :
    other ∈ front ++ item :: back := by
  simp only [List.mem_append, List.mem_cons] at member ⊢
  rcases member with member | rfl | member
  · exact .inl member
  · exact absurd delivers served
  · exact .inr (.inr member)

/-- One item less that refers to a message. -/
theorem Backed.served (backed : Backed m (front ++ item :: back)) (served : ¬ Delivers item') :
    Backed m (front ++ item' :: back) where
  placed := backed.placed
  filled := backed.filled
  counted := by
    intro other member delivers
    obtain ⟨i, found, enough⟩ := backed.counted other (mem_served member delivers served) delivers
    refine ⟨i, found, ?_⟩
    rw [refs_served served]
    rw [refs_split] at enough
    omega

/-- The count of a message goes down to no less than the items that are left. -/
theorem Backed.lowered (backed : Backed m (front ++ item :: back)) (delivers : Delivers item)
    (served : ¬ Delivers item') (found : m.get item.packetId = some i) (more : (slotAt m.slots i).count - 1 ≠ 0) :
    Backed { m with slots := m.slots.set i { slotAt m.slots i with count := (slotAt m.slots i).count - 1 } }
      (front ++ item' :: back) := by
  have inside := get_lt backed.placed found
  have id := get_id backed.placed found
  have live := get_live backed.placed found delivers.1
  refine ⟨backed.placed.set inside (fun _ => backed.placed.near i live) (absurd more), fun j => ?_,
    fun other member other_delivers => ?_⟩
  · rw [slotAt_set inside]
    split
    · exact fun _ => backed.filled i live
    · exact backed.filled j
  · obtain ⟨j, found', enough⟩ := backed.counted other (mem_served member other_delivers served) other_delivers
    have kept := get_set m i { slotAt m.slots i with count := (slotAt m.slots i).count - 1 } rfl other.packetId
    refine ⟨j, kept.trans found', ?_⟩
    rw [slotAt_set inside, refs_served served]
    rw [refs_split] at enough
    by_cases same : other.packetId = item.packetId
    · rw [same, found] at found'
      obtain rfl := Option.some.inj found'
      rw [same, if_pos ⟨delivers, rfl⟩] at enough
      rw [if_pos rfl, same]
      have positive : (1 : UInt8) ≤ (slotAt m.slots i).count := by
        rw [UInt8.le_iff_toNat_le]
        change 1 ≤ _
        omega
      rw [UInt8.toNat_sub_of_le _ _ positive]
      change _ ≤ _ - 1
      omega
    · have elsewhere : j ≠ i := by
        rintro rfl
        exact same ((get_id backed.placed found').symm.trans id)
      rw [if_neg elsewhere]
      omega

/-- A message that no item is left for leaves the table. -/
theorem Backed.cleared (size : Nat) (backed : Backed m (front ++ item :: back)) (delivers : Delivers item)
    (served : ¬ Delivers item') (found : m.get item.packetId = some i) (last : (slotAt m.slots i).count - 1 = 0) :
    Backed { m with slots := m.slots.set i {}, size := size } (front ++ item' :: back) := by
  have inside := get_lt backed.placed found
  have id := get_id backed.placed found
  have dead : ¬ ({} : NodePubmap).Live := fun live => live rfl
  have one : (slotAt m.slots i).count.toNat = 1 := by
    have count : (slotAt m.slots i).count = 1 := by grind
    rw [count]
    rfl
  obtain ⟨home, again, enough⟩ := backed.counted item (by simp) delivers
  rw [found] at again
  obtain rfl := Option.some.inj again
  rw [one, refs_split, if_pos ⟨delivers, rfl⟩] at enough
  have none : refs (front ++ back) item.packetId = 0 := by omega
  refine ⟨backed.placed.set inside (absurd · dead) fun _ => rfl, fun j => ?_, fun other member other_delivers => ?_⟩
  · rw [slotAt_set inside]
    split
    · exact fun live => absurd live dead
    · exact backed.filled j
  · have different : other.packetId ≠ item.packetId := by
      intro same
      have unused : refs (front ++ item' :: back) item.packetId = 0 := (refs_served served).trans none
      rw [refs, List.countP_eq_zero] at unused
      exact unused other member (by simp [other_delivers, same])
    obtain ⟨j, found', enough⟩ := backed.counted other (mem_served member other_delivers served) other_delivers
    have elsewhere : j ≠ i := fun here =>
      different ((get_id backed.placed found').symm.trans (here ▸ id))
    refine ⟨j, (get_cleared backed.placed found different other_delivers.1).trans found', ?_⟩
    rw [slotAt_set inside, if_neg elsewhere, refs_served served]
    rw [refs_split] at enough
    omega

/-- The table after a message has been counted down for an item. -/
theorem Backed.countDown (backed : Backed w.publishMsgStore (front ++ item :: back)) (delivers : Delivers item)
    (served : ¬ Delivers item') (found : w.publishMsgStore.get item.packetId = some i) :
    Backed (w.countDown i item.packetId).publishMsgStore (front ++ item' :: back) := by
  change Backed (if (slotAt w.publishMsgStore.slots i).count - 1 = 0 then (w.lowered i).erase item.packetId
    else w.lowered i) _
  split
  · rename_i last
    have kept := get_set w.publishMsgStore i { w.nodeAt i with count := (w.nodeAt i).count - 1 } rfl item.packetId
    have lowered : (w.lowered i).get item.packetId = some i := kept.trans found
    rw [erase_some lowered]
    have cleared := backed.cleared ((w.publishMsgStore.size + (2 ^ 32 - 1)) % 2 ^ 32) delivers served found last
    simpa only [World.lowered, List.set_set] using cleared
  · rename_i more
    exact backed.lowered delivers served found more

end Table

/-! ### One event -/

/-- The socket has a client. -/
structure Connected (sock : Fin 64) (w : World) : Prop where
  phase : (w.socks sock).phs = .mqtt
  client : ∃ addr client, (w.socks sock).client = some addr ∧ w.clientAt addr = some client

/-- Who a packet is written to, and for which item. -/
def attempted : Event → Option (Fin 64 × Option PackidStateItem)
  | .wrote sock _ _ item => some (sock, item)
  | _ => none

def requested : Event → Option Message
  | .queued msg _ => some msg
  | _ => none

/-- An item is served: it is written for and does not wait any more, and all
else is as the items need it. -/
structure Serves (sock : Fin 64) (w : World) (front : List PackidStateItem) (item : PackidStateItem)
    (back : List PackidStateItem) (w' : World) : Prop where
  connected : Connected sock w'
  items : ∃ item', ¬ PackidStateItem.Pending item' ∧ w'.items sock = front ++ item' :: back ∧
    Backed w'.publishMsgStore (front ++ item' :: back)
  trace : ∃ said bytes, w'.trace = said ++ .wrote sock (w.socks sock) bytes (some item) :: w.trace ∧
    ∀ e ∈ said, attempted e = none ∧ requested e = none

theorem connWrite_eq (bytes : List UInt8) (item : Option PackidStateItem) :
    connWrite sock bytes item w = .ok (w.env.writes.headD true,
      { w with env := { w.env with writes := w.env.writes.tail } }.log (.wrote sock (w.socks sock) bytes item)) := rfl

theorem modify_behind (f : PackidStateItem → PackidStateItem) :
    (front ++ item :: back).modify front.length f = front ++ f item :: back := by
  induction front with
  | nil => rfl
  | cons other front ih => simp [ih]

theorem delivers_pending (delivers : Delivers item) : PackidStateItem.Pending item :=
  ⟨delivers.1, by simp [delivers.2]⟩

/-- What it takes to serve an item. -/
theorem serves_of (said : List Event) {bytes : List UInt8} {f : PackidStateItem → PackidStateItem}
    (connected : Connected sock w) (at_front : w.items sock = front ++ item :: back)
    (served : ¬ PackidStateItem.Pending (f item)) (socks : w'.socks = (w.setItem sock front.length f).socks)
    (clients : w'.clientStore = w.clientStore)
    (trace : w'.trace = said ++ .wrote sock (w.socks sock) bytes (some item) :: w.trace)
    (quiet : ∀ e ∈ said, attempted e = none ∧ requested e = none)
    (backed : Backed w'.publishMsgStore (front ++ f item :: back)) :
    Serves sock w front item back w' := by
  have here : w'.socks sock = { w.socks sock with
      packidState := { (w.socks sock).packidState with elems := front ++ f item :: back } } := by
    rw [socks, World.setItem, setSock_socks]
    change { w.socks sock with
      packidState := { (w.socks sock).packidState with elems := (w.items sock).modify front.length f } } = _
    rw [at_front, modify_behind]
  refine ⟨⟨?_, ?_⟩, ⟨f item, served, ?_, backed⟩, said, bytes, trace, quiet⟩
  · rw [here]
    exact connected.phase
  · rw [here]
    obtain ⟨addr, client, attached, held⟩ := connected.client
    refine ⟨addr, client, attached, ?_⟩
    rw [World.clientAt, World.clients, clients]
    exact held
  · rw [World.items, here]

theorem sendAck_serves (connected : Connected sock w) (at_front : w.items sock = front ++ item :: back)
    (backed : Backed w.publishMsgStore (front ++ item :: back)) (type : UInt8) {f : PackidStateItem → PackidStateItem}
    (served : ¬ PackidStateItem.Pending (f item)) :
    ∃ w', sendAck sock front.length item type f w = .ok ((), w') ∧ Serves sock w front item back w' := by
  rw [sendAck, bind_of_ok (connWrite_eq _ _)]
  refine ⟨_, modify_ok.mpr rfl, serves_of [] connected at_front served rfl rfl rfl (List.forall_mem_nil _) ?_⟩
  exact backed.served (mt delivers_pending served)

/-- A message is sent, and an error is told of. -/
theorem logFailure_eq (connected : Connected sock w) (written : Bool) :
    logFailure sock item written w =
      .ok ((), { w with trace := (if written then [] else [.unsent item]) ++ w.trace }) := by
  obtain ⟨addr, client, attached, held⟩ := connected.client
  cases written with
  | true => rfl
  | false =>
    have followed : deref (w.socks sock).client w = .ok (client, w) := by rw [attached, deref_held held]
    have here : sockAt sock w = .ok (w.socks sock, w) := rfl
    rw [logFailure, if_neg Bool.false_ne_true, bind_of_ok here, bind_of_ok followed]
    rfl

theorem publish_serves (connected : Connected sock w) (at_front : w.items sock = front ++ item :: back)
    (backed : Backed w.publishMsgStore (front ++ item :: back)) (delivers : Delivers item)
    (found : w.publishMsgStore.get item.packetId = some i) :
    ∃ w', publish (w.nodeAt i).data item.qos item.packetId sock front.length item item.deleteRetain w = .ok ((), w') ∧
      Serves sock w front item back w' := by
  have live := get_live backed.placed found delivers.1
  cases frame : (w.nodeAt i).data with
  | nil => exact absurd frame (backed.filled i live)
  | cons head rest =>
    have looked (env : Env) (e : Event) :
        storeGet item.packetId ({ w with env := env }.log e) = .ok (some i, { w with env := env }.log e) := by
      change Except.ok (w.publishMsgStore.get item.packetId, _) = _
      rw [found]
    have connected' (env : Env) (e : Event) : Connected sock ({ w with env := env }.log e) :=
      ⟨connected.phase, connected.client⟩
    have quiet : ∀ e ∈ (if w.env.writes.headD true then [] else [Event.unsent item]),
        attempted e = none ∧ requested e = none := by
      intro e member
      split at member
      · cases member
      · obtain rfl := List.mem_singleton.mp member
        exact ⟨rfl, rfl⟩
    rw [publish, bind_of_ok (connWrite_eq _ _), bind_of_ok (looked _ _), bind_of_ok (logFailure_eq (connected' _ _) _)]
    by_cases settled : (item.qos = 0 || !w.env.writes.headD true) = true
    · rw [if_pos settled]
      refine ⟨_, (modify_bind_ok.trans countDown_ok).mpr rfl, ?_⟩
      have free : ¬ PackidStateItem.Pending { item with packetId := 0 } := fun waits => waits.1 rfl
      refine serves_of (.uncounting (w.nodeAt i) :: _) connected at_front free rfl rfl rfl
        (List.forall_mem_cons.mpr ⟨⟨rfl, rfl⟩, quiet⟩) ?_
      have counted : Backed (w.countDown i item.packetId).publishMsgStore
          (front ++ { item with packetId := 0 } :: back) :=
        backed.countDown delivers (fun delivers => delivers.1 rfl) found
      exact counted
    · rw [if_neg settled]
      refine ⟨_, rfl, ?_⟩
      have waiting : ¬ PackidStateItem.Pending
          { item with state := if item.qos = 1 then .getpuback else .getpubrec } := by
        rintro ⟨-, waits⟩
        split at waits <;> simp at waits
      refine serves_of _ connected at_front waiting rfl rfl rfl quiet ?_
      exact backed.served (mt delivers_pending waiting)

theorem transmit_serves (connected : Connected sock w) (at_front : w.items sock = front ++ item :: back)
    (backed : Backed w.publishMsgStore (front ++ item :: back)) (waits : PackidStateItem.Pending item) :
    ∃ w', transmit sock front.length item w = .ok ((), w') ∧ Serves sock w front item back w' := by
  have free : ¬ PackidStateItem.Pending { item with packetId := 0 } := fun waits => waits.1 rfl
  unfold transmit
  cases state : item.state with
  | sendpuback => exact sendAck_serves connected at_front backed 0x40 free
  | sendpubrec =>
    refine sendAck_serves connected at_front backed 0x50 (f := ({ · with state := .getpubrel })) ?_
    simp [PackidStateItem.Pending]
  | sendpubrel =>
    refine sendAck_serves connected at_front backed 0x62 (f := ({ · with state := .getpubcomp })) ?_
    simp [PackidStateItem.Pending]
  | sendpubcomp => exact sendAck_serves connected at_front backed 0x70 free
  | sendpublish =>
    have delivers : Delivers item := ⟨waits.1, state⟩
    obtain ⟨i, found, -⟩ := backed.counted item (by simp) delivers
    have looked : storeGet item.packetId w = .ok (some i, w) := by
      change Except.ok (w.publishMsgStore.get item.packetId, w) = _
      rw [found]
    have seen : (get : Worker World) w = .ok (w, w) := rfl
    have id : (w.nodeAt i).pubpackId = item.packetId := get_id backed.placed found
    dsimp only
    rw [bind_of_ok looked]
    dsimp only
    rw [bind_of_ok seen, id]
    exact publish_serves connected at_front backed delivers found
  | getpuback | getpubrec | getpubrel | getpubcomp =>
    have waits := waits.2
    simp [state] at waits

/-- A write event serves the first of the items that wait, and asks for a read
only if none is left. -/
structure Serviced (sock : Fin 64) (waiting : List (Nat × PackidStateItem)) (w w' : World) : Prop where
  connected : Connected sock w'
  backed : Backed w'.publishMsgStore (w'.items sock)
  left : pending 0 (w'.items sock) = waiting.tail
  trace : ∃ events op, w'.trace = events ++ w.trace ∧
    events.filterMap attempted = (waiting.head?.map fun entry => (sock, some entry.2)).toList ∧
    events.filterMap requested = [⟨sock, op⟩] ∧ (op = .read → waiting.tail = []) ∧ (waiting = [] → op = .read)

theorem sendtoque_eq (msg : Message) :
    sendtoque msg w = .ok (w.env.sends.headD true,
      { w with env := { w.env with sends := w.env.sends.tail } }.log (.queued msg (w.env.sends.headD true))) := rfl

theorem handle_write (connected : Connected sock w) :
    handle ⟨sock, .write⟩ w = writeEvent sock w := by
  have here : sockAt sock w = .ok (w.socks sock, w) := rfl
  rw [handle, bind_of_ok here, connected.phase]
  rfl

theorem writeEvent_serviced (connected : Connected sock w) (backed : Backed w.publishMsgStore (w.items sock)) :
    ∃ w', writeEvent sock w = .ok ((), w') ∧ Serviced sock (pending 0 (w.items sock)) w w' := by
  have seen : (get : Worker World) w = .ok (w, w) := rfl
  rw [writeEvent, bind_of_ok seen]
  cases waiting : pending 0 (w.items sock) with
  | nil =>
    rw [bind_of_ok (writeLoop_idle (pending_nil.mp waiting)), bind_of_ok (sendtoque_eq _)]
    refine ⟨_, rfl, ⟨connected.phase, connected.client⟩, backed, waiting, ?_⟩
    exact ⟨[_], .read, rfl, rfl, rfl, fun _ => rfl, fun _ => rfl⟩
  | cons entry more =>
    obtain ⟨i, item⟩ := entry
    obtain ⟨front, back, at_front, rfl, idle, waits, rfl⟩ := pending_cons waiting
    rw [at_front] at backed
    obtain ⟨w₁, sent, served⟩ := transmit_serves connected at_front backed waits
    obtain ⟨item', done, after, backed'⟩ := served.items
    obtain ⟨said, bytes, grown, quiet⟩ := served.trace
    have looped : writeLoop sock 0 (w.items sock) none false w = .ok (decide (back ≠ []), w₁) := by
      rw [at_front, writeLoop_found idle waits, Nat.zero_add, bind_of_ok sent]
      rfl
    rw [bind_of_ok looped, bind_of_ok (sendtoque_eq _)]
    refine ⟨_, rfl, ⟨served.connected.phase, served.connected.client⟩, ?_, ?_, ?_⟩
    · exact after ▸ backed'
    · change pending 0 (w₁.items sock) = _
      rw [after, pending_behind idle, pending, if_neg done]
      rfl
    · have silent : said.filterMap attempted = [] ∧ said.filterMap requested = [] := by
        simp only [List.filterMap_eq_nil_iff]
        exact ⟨fun e member => (quiet e member).1, fun e member => (quiet e member).2⟩
      refine ⟨.queued ⟨sock, if decide (back ≠ []) then .write else .read⟩ (w₁.env.sends.headD true) ::
        (said ++ [.wrote sock (w.socks sock) bytes (some item)]), if decide (back ≠ []) then .write else .read,
        ?_, ?_, ?_, ?_, fun wrong => by cases wrong⟩
      · change _ :: w₁.trace = _
        rw [grown, List.cons_append, List.append_assoc]
        rfl
      · rw [List.filterMap_cons_none rfl, List.filterMap_append, silent.1]
        rfl
      · simp [requested, silent]
      · intro reads
        cases back with
        | nil => rfl
        | cons other back => simp at reads

/-! ### Runs -/

/-- Write events, each with what the outside world answers. -/
def writes (sock : Fin 64) (envs : List Env) : List (Message × Env) := envs.map fun env => (⟨sock, .write⟩, env)

/-- After some write events the items that still wait are those from that number
on. -/
theorem run_writes (connected : Connected sock w) (backed : Backed w.publishMsgStore (w.items sock))
    (envs : List Env) :
    ∃ w', w.run (writes sock envs) = .ok w' ∧ Connected sock w' ∧ Backed w'.publishMsgStore (w'.items sock) ∧
      pending 0 (w'.items sock) = (pending 0 (w.items sock)).drop envs.length := by
  induction envs generalizing w with
  | nil => exact ⟨w, rfl, connected, backed, rfl⟩
  | cons env envs ih =>
    have connected' : Connected sock { w with env := env } := ⟨connected.phase, connected.client⟩
    obtain ⟨w₁, ran, serviced⟩ := writeEvent_serviced connected' backed
    obtain ⟨w', rest, connected'', backed', left⟩ := ih serviced.connected serviced.backed
    refine ⟨w', ?_, connected'', backed', ?_⟩
    · rw [writes, List.map_cons, World.run, handle_write connected', ran]
      exact rest
    · rw [left, serviced.left, List.drop_tail, List.length_cons]
      rfl

/-- In a run of write events the first attempts the first item that waits, the
next the next, and so on, each no other; a read is asked for only if none is
left, and it is as soon as there are none at the beginning of an event. -/
theorem writes_drain (sock : Fin 64) (w : World) (connected : Connected sock w)
    (backed : Backed w.publishMsgStore (w.items sock)) (envs : List Env) (env : Env) :
    ∃ w₁ w₂ events op, w.run (writes sock envs) = .ok w₁ ∧
      handle ⟨sock, .write⟩ { w₁ with env := env } = .ok ((), w₂) ∧ w₂.trace = events ++ w₁.trace ∧
      events.filterMap attempted =
        ((pending 0 (w.items sock))[envs.length]?.map fun entry => (sock, some entry.2)).toList ∧
      pending 0 (w₂.items sock) = (pending 0 (w.items sock)).drop (envs.length + 1) ∧
      events.filterMap requested = [⟨sock, op⟩] ∧ (op = .read → pending 0 (w₂.items sock) = []) ∧
      ((pending 0 (w.items sock)).length ≤ envs.length → op = .read) := by
  obtain ⟨w₁, ran, connected₁, backed₁, left⟩ := run_writes connected backed envs
  have connected' : Connected sock { w₁ with env := env } := ⟨connected₁.phase, connected₁.client⟩
  obtain ⟨w₂, ran', serviced⟩ := writeEvent_serviced connected' backed₁
  obtain ⟨events, op, grown, attempt, request, reads, idle⟩ := serviced.trace
  have after := serviced.left
  change pending 0 (w₂.items sock) = (pending 0 (w₁.items sock)).tail at after
  change events.filterMap attempted = ((pending 0 (w₁.items sock)).head?.map _).toList at attempt
  rw [left] at after attempt
  refine ⟨w₁, w₂, events, op, ran, (handle_write connected').trans ran', grown, ?_, ?_, request, ?_, ?_⟩
  · rw [attempt, List.head?_drop]
  · rw [after, List.tail_drop]
  · exact fun read => serviced.left.trans (reads read)
  · intro enough
    refine idle ?_
    change pending 0 (w₁.items sock) = []
    rw [left, List.drop_eq_nil_of_le enough]

/-! ### An acknowledgement and a message -/

def waitingItems : List PackidStateItem :=
  [⟨5, .sendpuback, 1, true, ⟨1, [], [], none, none, 0⟩⟩, ⟨0, .sendpubrec, 2, true, ⟨1, [], [], none, none, 0⟩⟩,
    ⟨7, .sendpublish, 1, true, ⟨1, [], [], none, none, 0⟩⟩]

def waitingStore : PublishHashmap := ((ofPower 5).add 7 [0x32, 6, 0, 1, 116, 0, 7, 1] 1 1 []).2.1

/-- A connected socket with these items, and their message in the table. -/
def waitingWorld : World := { World.initial .clean with
  socks := fun _ => { client := some 0, clientid := [97], phs := .mqtt, tls := 1, packidState := ⟨waitingItems, 4⟩ }
  clientStore := { (Myhashmap.ofCapacity (α := Client) 1 []).1 with
    buckets := [[⟨[97], { addr := 0, subscriptions := (Subscription.new []).1 }⟩]] }
  publishMsgStore := waitingStore }

theorem waitingStore_backed : Backed waitingStore waitingItems := by
  have empty : Placed (ofPower 5).powerOfCap (ofPower 5).slots := placed_replicate (by decide) (by decide)
  have room : Room (ofPower 5) 7 := ⟨fun full => absurd full (by decide +kernel), by decide +kernel⟩
  have free (i : Nat) (live : (slotAt (ofPower 5).slots i).Live) : (slotAt (ofPower 5).slots i).data ≠ [] := by
    have none : taken (ofPower 5).slots = 0 := taken_replicate _
    have member := mem_taken.mpr ⟨i, rfl, live⟩
    rw [none] at member
    exact absurd member (Multiset.notMem_zero _)
  have one : (1 : UInt8) ≠ 0 := by decide
  have bounded (_ : (ofPower 5).size = (ofPower 5).capacity) : (ofPower 5).powerOfCap < 32 := by decide
  have placed := (add_spec empty bounded room [0x32, 6, 0, 1, 116, 0, 7, 1] 1 one []).1
  have filled := add_filled empty bounded room free [0x32, 6, 0, 1, 116, 0, 7, 1] 1 one []
  refine ⟨placed, filled, ?_⟩
  intro item member delivers
  have same : item = ⟨7, .sendpublish, 1, true, ⟨1, [], [], none, none, 0⟩⟩ := by
    simp only [waitingItems, List.mem_cons, List.not_mem_nil, or_false] at member
    rcases member with rfl | rfl | rfl
    · cases delivers.2
    · cases delivers.2
    · rfl
  subst same
  exact ⟨knuthHash 5 7, by decide +kernel, by decide +kernel⟩

theorem waitingWorld_drains : ∃ w₁ w₂ events op, waitingWorld.run (writes 0 [{}]) = .ok w₁ ∧
    handle ⟨0, .write⟩ { w₁ with env := {} } = .ok ((), w₂) ∧ w₂.trace = events ++ w₁.trace ∧
    events.filterMap attempted =
      ((pending 0 (waitingWorld.items 0))[1]?.map fun entry => ((0 : Fin 64), some entry.2)).toList ∧
    pending 0 (w₂.items 0) = (pending 0 (waitingWorld.items 0)).drop 2 ∧
    events.filterMap requested = [⟨0, op⟩] ∧ (op = .read → pending 0 (w₂.items 0) = []) ∧
    ((pending 0 (waitingWorld.items 0)).length ≤ 1 → op = .read) :=
  writes_drain 0 waitingWorld ⟨rfl, 0, _, rfl, rfl⟩ waitingStore_backed [{}] {}

end MqttBroker.Draining
