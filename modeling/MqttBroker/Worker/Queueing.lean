import MqttBroker.Worker.FanOut

/-! What `add_packet_id` does to the items of a socket. A free item is one
with packet id 0, so an item for id 0 is put where the next one will be. -/
namespace MqttBroker.Queueing
open World Worker FanOut

/-- The search for an item of an acknowledgement. -/
def search (items : List PackidStateItem) (packetId : UInt16) (state : PacketState) :
    Option (PackidStateItem × Nat) :=
  items.zipIdx.find? fun entry => entry.1.packetId = packetId ∧ entry.1.state = state

/-- One item more on a socket, and nothing else. -/
structure OneMore (w : World) (sock : Fin 64) (item : PackidStateItem) (w' : World) : Prop where
  live : (inUse (vectors w' sock)).Perm (item :: inUse (vectors w sock))
  placed : ∃ i : Nat, (w'.items sock)[i]? = some item ∧ ∀ j, j ≠ i → (w'.items sock)[j]? = (w.items sock)[j]?
  kept : ∀ (i : Nat) old, (w.items sock)[i]? = some old → old.packetId ≠ 0 → (w'.items sock)[i]? = some old
  found : ∃ entry, search (w'.items sock) item.packetId item.state = some entry ∧
    entry.1.packetId = item.packetId ∧ entry.1.state = item.state
  others : ∀ other, other ≠ sock → w'.items other = w.items other

def AddsOne (w : World) (sock : Fin 64) (item : PackidStateItem) : Prop :=
  ∃ w', addPacketId sock item w = .ok ((), w') ∧ OneMore w sock item w'

variable {w w' : World} {sock : Fin 64} {item : PackidStateItem} {v : Myvector PackidStateItem} {heap : Heap}

/-- With memory the item comes to the first free slot or behind the last. -/
theorem queueItem_placed (v : Myvector PackidStateItem) (item : PackidStateItem)
    (room : heap.alloc.1 = true) :
    ∃ i : Nat, (queueItem v item heap).1.elems[i]? = some item ∧
      (∀ j, j ≠ i → (queueItem v item heap).1.elems[j]? = v.elems[j]?) ∧
      ∀ old, v.elems[i]? = some old → old.packetId = 0 := by
  unfold queueItem
  cases found : v.elems.findIdx? (·.packetId = 0) with
  | some i =>
    obtain ⟨inside, free, -⟩ := List.findIdx?_eq_some_iff_getElem.mp found
    refine ⟨i, ?_, fun j other => ?_, fun old at_i => ?_⟩
    · dsimp only
      rw [List.getElem?_modify, List.getElem?_eq_getElem inside]
      simp
    · exact List.getElem?_modify_ne _ _ (Ne.symm other)
    · rw [List.getElem?_eq_getElem inside] at at_i
      obtain rfl := Option.some.inj at_i
      exact of_decide_eq_true free
  | none =>
    have pushed : (v.pushBack item heap).1.elems = v.elems ++ [item] := by
      unfold Myvector.pushBack
      split <;> rfl
    dsimp only
    rw [pushed]
    refine ⟨v.elems.length, List.getElem?_concat_length, fun j other => ?_, fun old at_end => ?_⟩
    · rw [List.getElem?_append, List.getElem?_singleton]
      split
      · rfl
      · rw [if_neg (by omega), List.getElem?_eq_none (by omega)]
    · rw [List.getElem?_eq_none (Nat.le_refl _)] at at_end
      cases at_end

theorem search_found {items : List PackidStateItem} (member : item ∈ items) :
    ∃ entry, search items item.packetId item.state = some entry ∧
      entry.1.packetId = item.packetId ∧ entry.1.state = item.state := by
  obtain ⟨i, at_i⟩ := List.mem_iff_getElem?.mp member
  have some : (search items item.packetId item.state).isSome := by
    rw [search, List.find?_isSome]
    exact ⟨(item, i), List.mem_zipIdx_iff_getElem?.mpr at_i, by simp⟩
  obtain ⟨entry, found⟩ := Option.isSome_iff_exists.mp some
  have matching := List.find?_some found
  rw [decide_eq_true_eq] at matching
  exact ⟨entry, found, matching⟩

/-- With memory, one item is added and none lost exactly for an id that is not
the mark of a free item. -/
theorem adds_one_iff (room : w.env.heap.alloc.1 = true) : AddsOne w sock item ↔ item.packetId ≠ 0 := by
  constructor
  · rintro ⟨w', -, more⟩
    have used : item ∈ inUse (vectors w' sock) := more.live.mem_iff.mpr List.mem_cons_self
    have used := (List.mem_filter.mp used).2
    exact of_decide_eq_true used
  · intro used
    obtain ⟨w', ran, queued, -, -, -⟩ := addPacketId_run w sock item
    have here : vectors w' sock = (queueItem (vectors w sock) item w.env.heap).1 := by
      rw [queued, Function.update_self]
    have items : w'.items sock = (queueItem (vectors w sock) item w.env.heap).1.elems :=
      congrArg Myvector.elems here
    obtain ⟨i, at_i, elsewhere, free⟩ := queueItem_placed (vectors w sock) item room
    rw [← items] at at_i elsewhere
    refine ⟨w', ran, ?_, ⟨i, at_i, elsewhere⟩, fun j old at_j live => ?_, ?_, fun other different => ?_⟩
    · rw [here]
      exact queue_fits ⟨used, .inr (.inr room)⟩
    · by_cases same : j = i
      · subst same
        exact absurd (free old at_j) live
      · rw [elsewhere j same]
        exact at_j
    · exact search_found (List.mem_of_getElem? at_i)
    · have same : vectors w' other = vectors w other := by rw [queued, Function.update_of_ne different]
      exact congrArg Myvector.elems same

/-- An item as the fan-out makes it, for a message without QoS. -/
def randomItem (packetId : UInt16) : PackidStateItem :=
  ⟨packetId, .sendpublish, 0, true, { conn := 1, frame := [0x30], topic := [97] }⟩

/-- A socket with a free item between two live ones. -/
def partlyFree : World :=
  (initial .clean).setSock 3 ({ · with packidState := ⟨[randomItem 5, randomItem 0, randomItem 6], 4⟩ })

theorem adds_one_between : inUse (vectors partlyFree 3) = [randomItem 5, randomItem 6] ∧
    AddsOne partlyFree 3 (randomItem 7) :=
  ⟨rfl, (adds_one_iff rfl).mpr (by decide)⟩

/-- `esp_random` answers 0: the item that was added is free. -/
theorem zero_id_is_free :
    ∃ w', addPacketId 3 (randomItem 0) (initial .clean) = .ok ((), w') ∧ w'.items 3 = [randomItem 0] ∧
      inUse (vectors w' 3) = [] ∧ ¬ AddsOne (initial .clean) 3 (randomItem 0) := by
  refine ⟨_, rfl, rfl, rfl, fun adds => ?_⟩
  obtain ⟨w', ran, more⟩ := adds
  have used : randomItem 0 ∈ inUse (vectors w' 3) := more.live.mem_iff.mpr List.mem_cons_self
  exact absurd (of_decide_eq_true (List.mem_filter.mp used).2) (by decide)

end MqttBroker.Queueing
