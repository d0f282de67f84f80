import MqttBroker.Logic.Arrays
import MqttBroker.PublishHashmap

/-! What the message table holds, as the multiset of its taken slots, and what
each operation does to it. A slot is overwritten when both slots an id may use
are taken, so growth and insertion come with the condition under which they
overwrite nothing. -/
namespace MqttBroker.PublishHashmap

variable {power : Nat} {slots : List NodePubmap} {m : PublishHashmap} {x : UInt16} {i : Nat}

theorem slotAt_eq (inside : i < slots.length) : slotAt slots i = slots[i] := by
  simp [slotAt, inside]

/-- A slot written with its own packet id changes no lookup. -/
theorem get_set (m : PublishHashmap) (i : Nat) (node : NodePubmap)
    (id : node.pubpackId = (slotAt m.slots i).pubpackId) (x : UInt16) :
    { m with slots := m.slots.set i node }.get x = m.get x := by
  have length : (m.slots.set i node).length = m.slots.length := List.length_set
  refine @get_congr m { m with slots := m.slots.set i node } rfl length (fun j => ?_) x
  simp only [slotAt, List.getD_eq_getElem?_getD, List.getElem?_set] at id ⊢
  split
  · rename_i same
    subst same
    split
    · exact id
    · rename_i outside
      rw [List.getElem?_eq_none (Nat.le_of_not_lt outside)]
  · rfl

theorem slotAt_set (inside : i < slots.length) (node : NodePubmap) (j : Nat) :
    slotAt (slots.set i node) j = if j = i then node else slotAt slots j := by
  by_cases same : j = i
  · subst same
    simp [slotAt, inside]
  · simp [slotAt, List.getElem?_set_ne (Ne.symm same), same]

/-- The taken slots, in no order. -/
def taken (slots : List NodePubmap) : Multiset NodePubmap :=
  (slots : Multiset NodePubmap).filter NodePubmap.Live

theorem mem_taken {node : NodePubmap} :
    node ∈ taken slots ↔ ∃ i, slotAt slots i = node ∧ node.Live := by
  simp only [taken, Multiset.mem_filter, Multiset.mem_coe, List.mem_iff_getElem]
  constructor
  · rintro ⟨⟨i, inside, rfl⟩, live⟩
    exact ⟨i, slotAt_eq inside, live⟩
  · rintro ⟨i, rfl, live⟩
    have inside := Placed.lt_of_live live
    exact ⟨⟨i, inside, (slotAt_eq inside).symm⟩, live⟩

theorem taken_replicate (n : Nat) : taken (List.replicate n {}) = 0 := by
  apply Multiset.eq_zero_of_forall_notMem
  intro node member
  obtain ⟨i, rfl, live⟩ := mem_taken.mp member
  exact live (by simp only [slotAt, List.getD_eq_getElem?_getD, List.getElem?_replicate]; split <;> rfl)

/-- One slot is written: its old entry leaves, if it was taken, and its new
entry comes, if it is. -/
theorem taken_set (slots : List NodePubmap) (i : Nat) (inside : i < slots.length) :
    ∃ rest, taken slots = (if (slotAt slots i).Live then {slotAt slots i} else 0) + rest ∧
      ∀ node : NodePubmap, taken (slots.set i node) = (if node.Live then {node} else 0) + rest := by
  obtain ⟨rest, whole, written⟩ := Logic.set_split slots i inside
  refine ⟨rest.filter NodePubmap.Live, ?_, fun node => ?_⟩
  · rw [taken, whole, Multiset.filter_cons, slotAt_eq inside]
  · rw [taken, written, Multiset.filter_cons]

theorem taken_fill (inside : i < slots.length) (free : ¬ (slotAt slots i).Live)
    {node : NodePubmap} (live : node.Live) : taken (slots.set i node) = node ::ₘ taken slots := by
  obtain ⟨rest, whole, written⟩ := taken_set slots i inside
  rw [written, whole, if_pos live, if_neg free, zero_add, Multiset.singleton_add]

theorem taken_rewrite (live : (slotAt slots i).Live) {node : NodePubmap} (live' : node.Live) :
    ∃ rest, taken slots = slotAt slots i ::ₘ rest ∧ taken (slots.set i node) = node ::ₘ rest := by
  obtain ⟨rest, whole, written⟩ := taken_set slots i (Placed.lt_of_live live)
  exact ⟨rest, by rw [whole, if_pos live, Multiset.singleton_add],
    by rw [written, if_pos live', Multiset.singleton_add]⟩

theorem taken_clear (live : (slotAt slots i).Live) {node : NodePubmap} (free : ¬ node.Live) :
    taken slots = slotAt slots i ::ₘ taken (slots.set i node) := by
  obtain ⟨rest, whole, written⟩ := taken_set slots i (Placed.lt_of_live live)
  rw [whole, written, if_pos live, if_neg free, zero_add, Multiset.singleton_add]

/-- A slot may be rewritten as long as its new entry belongs there. -/
theorem Placed.set (placed : Placed power slots) (inside : i < slots.length) {node : NodePubmap}
    (near : node.Live → i = knuthHash power node.pubpackId ∨
      i = nextSlot slots.length (knuthHash power node.pubpackId))
    (vacant : ¬ node.Live → node.pubpackId = 0) : Placed power (slots.set i node) where
  width := by rw [List.length_set, placed.width]
  positive := placed.positive
  small := placed.small
  near := by
    intro j live
    rw [slotAt_set inside] at live ⊢
    rw [List.length_set]
    split at live
    · subst j
      rw [if_pos rfl]
      exact near live
    · rw [if_neg ‹_›]
      exact placed.near j live
  vacant := by
    intro j free
    rw [slotAt_set inside] at free ⊢
    split at free
    · rw [if_pos ‹_›]
      exact vacant free
    · rw [if_neg ‹_›]
      exact placed.vacant j free

/-- The slot chosen for an id is one of the two `get` looks at. -/
theorem freeSlot_near (placed : Placed power slots) (x : UInt16) :
    freeSlot power slots x = knuthHash power x ∨
      freeSlot power slots x = nextSlot slots.length (knuthHash power x) :=
  placed.shaped.freeSlot_near x

theorem placed_replicate (positive : 1 ≤ power) (small : power ≤ 32) :
    Placed power (List.replicate (2 ^ power) {}) := by
  have empty : ∀ i, slotAt (List.replicate (2 ^ power) {}) i = {} := by
    intro i
    simp only [slotAt, List.getD_eq_getElem?_getD, List.getElem?_replicate]
    split <;> rfl
  exact ⟨List.length_replicate, positive, small, fun i live => absurd (by rw [empty]) live,
    fun i _ => by rw [empty]⟩

/-- The doubled table takes these nodes, in this order, without writing over
one it has just taken. -/
def Fits (power : Nat) : List NodePubmap → List NodePubmap → Prop
  | _, [] => True
  | slots, node :: nodes =>
    (node.Live → ¬ (slotAt slots (freeSlot power slots node.pubpackId)).Live) ∧
      Fits power (rehashNode power slots node) nodes

instance (power : Nat) : ∀ slots nodes, Decidable (Fits power slots nodes)
  | _, [] => isTrue trivial
  | slots, node :: nodes =>
    have := instDecidableFits power (rehashNode power slots node) nodes
    inferInstanceAs (Decidable (_ ∧ _))

theorem rehash_node_spec (placed : Placed power slots) {node : NodePubmap}
    (room : node.Live → ¬ (slotAt slots (freeSlot power slots node.pubpackId)).Live) :
    Placed power (rehashNode power slots node) ∧
      taken (rehashNode power slots node) = taken slots + (if node.Live then {node} else 0) := by
  unfold rehashNode
  by_cases free : node.count = 0
  · have dead : ¬ node.Live := fun live => live free
    simp [free, dead, placed]
  · have live : node.Live := free
    rw [if_neg free, if_pos live, taken_fill (freeSlot_lt placed _) (room live) live,
      Multiset.add_comm, Multiset.singleton_add]
    exact ⟨placed.set (freeSlot_lt placed _) (fun _ => freeSlot_near placed _) (absurd live), rfl⟩

theorem rehash_nodes_spec (placed : Placed power slots) (nodes : List NodePubmap)
    (fits : Fits power slots nodes) :
    Placed power (nodes.foldl (rehashNode power) slots) ∧
      taken (nodes.foldl (rehashNode power) slots) = taken slots + taken nodes := by
  induction nodes generalizing slots with
  | nil => exact ⟨placed, by simp [taken]⟩
  | cons node nodes ih =>
    obtain ⟨stepPlaced, stepTaken⟩ := rehash_node_spec placed fits.1
    obtain ⟨restPlaced, restTaken⟩ := ih stepPlaced fits.2
    refine ⟨restPlaced, ?_⟩
    rw [List.foldl_cons, restTaken, stepTaken, Multiset.add_assoc]
    congr 1
    rw [taken, taken, ← Multiset.cons_coe, Multiset.filter_cons]

/-- Growth loses nothing. It happens when the counter equals the capacity, and
then the loop of `rehash` sees every slot. -/
def Grows (m : PublishHashmap) : Prop :=
  Fits (m.powerOfCap + 1) (List.replicate (m.capacity * 2) {}) m.slots

instance (m : PublishHashmap) : Decidable (Grows m) :=
  inferInstanceAs (Decidable (Fits _ _ _))

theorem rehashed_spec (placed : Placed m.powerOfCap m.slots) (full : m.size = m.capacity)
    (bounded : m.powerOfCap < 32) (grows : Grows m) :
    Placed m.rehashed.powerOfCap m.rehashed.slots ∧ taken m.rehashed.slots = taken m.slots := by
  have width : m.capacity * 2 = 2 ^ (m.powerOfCap + 1) := by
    rw [capacity, placed.width, Nat.pow_succ]
  have fits := grows
  rw [Grows, width] at fits
  obtain ⟨newPlaced, newTaken⟩ := rehash_nodes_spec
    (placed_replicate (Nat.le_add_left 1 m.powerOfCap) bounded) m.slots fits
  simp only [rehashed, full, capacity, List.take_length] at *
  rw [width]
  exact ⟨newPlaced, by rw [newTaken, taken_replicate, zero_add]⟩

/-- The table in which `add` looks for a slot. -/
def grown (m : PublishHashmap) : PublishHashmap := if m.size = m.capacity then m.rehashed else m

/-- `add` finds a free slot for this id: growth, where it is due, loses
nothing, and afterwards one of the two slots of the id is free. -/
structure Room (m : PublishHashmap) (x : UInt16) : Prop where
  grows : m.size = m.capacity → Grows m
  free : ¬ (slotAt m.grown.slots (freeSlot m.grown.powerOfCap m.grown.slots x)).Live

instance (m : PublishHashmap) (x : UInt16) : Decidable (Room m x) :=
  decidable_of_iff ((m.size = m.capacity → Grows m) ∧
      ¬ (slotAt m.grown.slots (freeSlot m.grown.powerOfCap m.grown.slots x)).Live)
    ⟨fun ⟨grows, free⟩ => ⟨grows, free⟩, fun room => ⟨room.grows, room.free⟩⟩

theorem grown_spec (placed : Placed m.powerOfCap m.slots)
    (bounded : m.size = m.capacity → m.powerOfCap < 32) (grows : m.size = m.capacity → Grows m) :
    Placed m.grown.powerOfCap m.grown.slots ∧ taken m.grown.slots = taken m.slots ∧
      m.grown.size = m.size := by
  unfold grown
  split
  · obtain ⟨newPlaced, newTaken⟩ := rehashed_spec placed ‹_› (bounded ‹_›) (grows ‹_›)
    exact ⟨newPlaced, newTaken, rfl⟩
  · exact ⟨placed, rfl, rfl⟩

/-- The two ways `add` ends when there is room for `node`. A refusal may have
grown the table, but holds what it held. -/
inductive Added (m : PublishHashmap) (node : NodePubmap) : Bool → PublishHashmap → Prop
  | stored {m' : PublishHashmap} : node.data ≠ [] → taken m'.slots = node ::ₘ taken m.slots →
      m'.size = (m.size + 1) % 2 ^ 32 → Added m node true m'
  | refused {m' : PublishHashmap} : taken m'.slots = taken m.slots → m'.size = m.size →
      Added m node false m'

private theorem Added.regard {m₀ m' : PublishHashmap} {node : NodePubmap} {ok : Bool}
    (added : Added m node ok m') (holds : taken m.slots = taken m₀.slots)
    (sized : m.size = m₀.size) : Added m₀ node ok m' := by
  cases added with
  | stored nonempty holds' sized' =>
    exact .stored nonempty (by rw [holds', holds]) (by rw [sized', sized])
  | refused holds' sized' => exact .refused (by rw [holds', holds]) (by rw [sized', sized])

private theorem of_range_elems {data : List α} {heap : Heap}
    (stored : (Myvector.ofRange data heap).1.elems ≠ []) :
    (Myvector.ofRange data heap).1.elems = data := by
  unfold Myvector.ofRange at stored ⊢
  split at stored
  · exact absurd rfl stored
  · cases ok : heap.alloc.1 <;> simp_all

private theorem place_spec (placed : Placed m.powerOfCap m.slots)
    (free : ¬ (slotAt m.slots (freeSlot m.powerOfCap m.slots x)).Live) (data : List UInt8)
    (qos : UInt8) {count : UInt8} (counted : count ≠ 0) (heap : Heap) :
    Placed (m.place x data qos count heap).2.1.powerOfCap (m.place x data qos count heap).2.1.slots ∧
      Added m ⟨count, qos, x, data⟩ (m.place x data qos count heap).1
        (m.place x data qos count heap).2.1 := by
  have inside := freeSlot_lt placed x
  unfold place
  by_cases stored : (Myvector.ofRange data heap).1.elems = []
  · have dead : ¬ ({ slotAt m.slots (freeSlot m.powerOfCap m.slots x) with
        data := [] } : NodePubmap).Live := free
    rw [if_pos stored]
    refine ⟨placed.set inside (fun live => absurd live dead) (fun _ => placed.vacant _ free),
      .refused ?_ rfl⟩
    obtain ⟨rest, whole, written⟩ := taken_set m.slots _ inside
    rw [written, if_neg dead, whole, if_neg free]
  · have live : ({ count := count, qos := qos, pubpackId := x, data := data } : NodePubmap).Live :=
      counted
    rw [if_neg stored, of_range_elems stored]
    exact ⟨placed.set inside (fun _ => freeSlot_near placed x) (absurd live),
      .stored (of_range_elems stored ▸ stored) (taken_fill inside free live) rfl⟩

/-- With room for its id, `add` stores the new entry beside the old ones or
refuses it. -/
theorem add_spec (placed : Placed m.powerOfCap m.slots)
    (bounded : m.size = m.capacity → m.powerOfCap < 32) (room : Room m x) (data : List UInt8)
    (qos : UInt8) {count : UInt8} (counted : count ≠ 0) (heap : Heap) :
    Placed (m.add x data qos count heap).2.1.powerOfCap (m.add x data qos count heap).2.1.slots ∧
      Added m ⟨count, qos, x, data⟩ (m.add x data qos count heap).1
        (m.add x data qos count heap).2.1 := by
  obtain ⟨grownPlaced, grownTaken, grownSize⟩ := grown_spec placed bounded room.grows
  obtain ⟨newPlaced, added⟩ := place_spec grownPlaced room.free data qos counted
    (if m.size = m.capacity then heap.alloc.2 else heap)
  have ends := added.regard grownTaken grownSize
  by_cases full : m.size = m.capacity
  · simp only [grown, if_pos full] at newPlaced ends
    cases ok : heap.alloc.1 with
    | true =>
      simp only [add, full, if_true, rehash, ok]
      exact ⟨newPlaced, ends⟩
    | false =>
      simp only [add, full, if_true, rehash, ok, Bool.false_eq_true, if_false]
      exact ⟨placed, .refused rfl rfl⟩
  · simp only [grown, if_neg full] at newPlaced ends
    simp only [add, if_neg full]
    exact ⟨newPlaced, ends⟩

/-- An entry that is stored is written over what its slot has in the table as
it is after growth. -/
theorem add_stored {data : List UInt8} {qos count : UInt8} {heap : Heap}
    (stored : (m.add x data qos count heap).1 = true) :
    (m.add x data qos count heap).2.1 =
      { m.grown with
        slots := m.grown.slots.set (freeSlot m.grown.powerOfCap m.grown.slots x) ⟨count, qos, x, data⟩
        size := (m.grown.size + 1) % 2 ^ 32 } := by
  have placed {m : PublishHashmap} {heap : Heap} (stored : (m.place x data qos count heap).1 = true) :
      (m.place x data qos count heap).2.1 =
        { m with
          slots := m.slots.set (freeSlot m.powerOfCap m.slots x) ⟨count, qos, x, data⟩
          size := (m.size + 1) % 2 ^ 32 } := by
    unfold place at stored ⊢
    by_cases failed : (Myvector.ofRange data heap).1.elems = []
    · rw [if_pos failed] at stored
      cases stored
    · rw [if_neg failed, of_range_elems failed]
  unfold add grown at *
  by_cases full : m.size = m.capacity
  · simp only [if_pos full, rehash] at stored ⊢
    by_cases memory : heap.alloc.1 = true
    · simp only [if_pos memory, if_true] at stored ⊢
      exact placed stored
    · simp only [if_neg memory, Bool.false_eq_true, if_false] at stored
  · simp only [if_neg full] at stored ⊢
    exact placed stored

theorem erase_none (absent : m.get x = none) : m.erase x = m := by
  simp only [erase, absent]

theorem erase_some (found : m.get x = some i) :
    m.erase x = { m with slots := m.slots.set i {}, size := (m.size + (2 ^ 32 - 1)) % 2 ^ 32 } := by
  simp only [erase, found]

/-- Erasing an id found in a taken slot frees that slot. -/
theorem erase_spec (placed : Placed m.powerOfCap m.slots) (found : m.get x = some i)
    (live : (slotAt m.slots i).Live) :
    Placed (m.erase x).powerOfCap (m.erase x).slots ∧
      taken m.slots = slotAt m.slots i ::ₘ taken (m.erase x).slots := by
  have dead : ¬ ({} : NodePubmap).Live := fun live => live rfl
  rw [erase_some found]
  exact ⟨placed.set (get_lt placed found) (fun live => absurd live dead) (fun _ => rfl),
    taken_clear live dead⟩

/-! ### Every slot -/

/-- Every slot has a property. -/
def AllSlots (Q : NodePubmap → Prop) (slots : List NodePubmap) : Prop := ∀ node ∈ slots, Q node

namespace AllSlots
variable {Q : NodePubmap → Prop} {node : NodePubmap}

theorem slotAt (all : AllSlots Q slots) (free : Q {}) (i : Nat) : Q (PublishHashmap.slotAt slots i) := by
  by_cases inside : i < slots.length
  · rw [slotAt_eq inside]
    exact all _ (List.getElem_mem inside)
  · have none : PublishHashmap.slotAt slots i = {} := by simp [PublishHashmap.slotAt, Nat.le_of_not_lt inside]
    rw [none]
    exact free

theorem replicate (free : Q {}) (n : Nat) : AllSlots Q (List.replicate n {}) := by
  intro node member
  obtain rfl := List.eq_of_mem_replicate member
  exact free

theorem set (all : AllSlots Q slots) (holds : Q node) (i : Nat) : AllSlots Q (slots.set i node) := by
  intro other member
  rcases List.mem_or_eq_of_mem_set member with before | rfl
  · exact all other before
  · exact holds

/-- Growth moves nodes and makes none. -/
theorem rehashed (all : AllSlots Q m.slots) (free : Q {}) : AllSlots Q m.rehashed.slots := by
  have moved (nodes : List NodePubmap) (among : ∀ node ∈ nodes, Q node) :
      ∀ slots, AllSlots Q slots → AllSlots Q (nodes.foldl (rehashNode (m.powerOfCap + 1)) slots) := by
    induction nodes with
    | nil => exact fun _ => id
    | cons node nodes ih =>
      obtain ⟨here, later⟩ := List.forall_mem_cons.mp among
      intro slots all
      refine ih later _ ?_
      unfold rehashNode
      split
      · exact all
      · exact all.set here _
  exact moved _ (fun node member => all node (List.mem_of_mem_take member)) _ (.replicate free _)

/-- A slot loses its data where there is no memory for those of a new node. -/
theorem place (all : AllSlots Q m.slots) (free : Q {}) (emptied : ∀ node, Q node → Q { node with data := [] })
    {data : List UInt8} {qos count : UInt8} (holds : Q ⟨count, qos, x, data⟩) (heap : Heap) :
    AllSlots Q (m.place x data qos count heap).2.1.slots := by
  unfold PublishHashmap.place
  dsimp only
  split
  · exact all.set (emptied _ (all.slotAt free _)) _
  · rename_i stored
    rw [of_range_elems stored]
    exact all.set holds _

theorem add (all : AllSlots Q m.slots) (free : Q {}) (emptied : ∀ node, Q node → Q { node with data := [] })
    {data : List UInt8} {qos count : UInt8} (holds : Q ⟨count, qos, x, data⟩) (heap : Heap) :
    AllSlots Q (m.add x data qos count heap).2.1.slots := by
  unfold PublishHashmap.add PublishHashmap.rehash
  split
  · split
    · exact (all.rehashed free).place free emptied holds _
    · exact all
  · exact all.place free emptied holds _

theorem erase (all : AllSlots Q m.slots) (free : Q {}) (x : UInt16) : AllSlots Q (m.erase x).slots := by
  unfold PublishHashmap.erase
  split
  · exact all
  · exact all.set free _

end AllSlots

end MqttBroker.PublishHashmap
