import MqttBroker.Logic.Bytes
import MqttBroker.PublishHashmapReachability

/-! The counts of an id, summed over all of its nodes. The table does not keep
an id in one node, so a count goes up or down in one of them, and only the sum
says how often the id can still be counted down. -/
namespace MqttBroker.PublishHashmap

/-- What a node adds to the weight of an id. -/
def load (x : UInt16) (node : NodePubmap) : Nat := if node.pubpackId = x then node.count.toNat else 0

def weight (slots : List NodePubmap) (x : UInt16) : Nat := (slots.map (load x)).sum

/-- Every live node of an id has these data and this QoS. -/
def Carries (slots : List NodePubmap) (x : UInt16) (data : List UInt8) (qos : UInt8) : Prop :=
  ∀ node ∈ taken slots, node.pubpackId = x → node.data = data ∧ node.qos = qos

section Weights
variable {slots : List NodePubmap} {m : PublishHashmap} {x y : UInt16} {i : Nat} {node : NodePubmap}
  {data : List UInt8} {qos : UInt8}

theorem load_other (other : node.pubpackId ≠ x) : load x node = 0 := if_neg other

theorem load_dead (dead : ¬ node.Live) : load x node = 0 := by
  have zero : node.count = 0 := not_not.mp dead
  simp [load, zero]

theorem load_live (live : node.Live) : load node.pubpackId node ≠ 0 := by
  intro zero
  rw [load, if_pos rfl] at zero
  exact live (UInt8.toNat_inj.mp zero)

/-- Only the taken slots count. -/
theorem weight_taken (slots : List NodePubmap) (x : UInt16) : weight slots x = ((taken slots).map (load x)).sum := by
  have whole := Multiset.filter_add_not NodePubmap.Live (slots : Multiset NodePubmap)
  have free : (((slots : Multiset NodePubmap).filter fun node => ¬ node.Live).map (load x)).sum = 0 := by
    refine Multiset.sum_eq_zero fun n member => ?_
    obtain ⟨node, free, rfl⟩ := Multiset.mem_map.mp member
    exact load_dead (Multiset.mem_filter.mp free).2
  have total : weight slots x = ((slots : Multiset NodePubmap).map (load x)).sum := by
    rw [Multiset.map_coe, Multiset.sum_coe, weight]
  rw [total, ← whole, Multiset.map_add, Multiset.sum_add, free, add_zero]
  rfl

/-- One slot is written. -/
theorem weight_set (inside : i < slots.length) (node : NodePubmap) (x : UInt16) :
    weight (slots.set i node) x + load x (slotAt slots i) = weight slots x + load x node := by
  obtain ⟨rest, whole, written⟩ := Logic.set_split slots i inside
  have sum (l : List NodePubmap) : weight l x = ((l : Multiset NodePubmap).map (load x)).sum := by
    rw [Multiset.map_coe, Multiset.sum_coe, weight]
  rw [sum, sum, written, whole, slotAt_eq inside]
  simp only [Multiset.map_cons, Multiset.sum_cons]
  omega

/-- An id that weighs something is found, in a live node if it is not 0. -/
theorem found_of_weight (placed : Placed m.powerOfCap m.slots) (heavy : weight m.slots x ≠ 0) :
    ∃ i, m.get x = some i := by
  obtain ⟨node, member, loaded⟩ : ∃ node ∈ m.slots, load x node ≠ 0 := by
    by_contra none
    push Not at none
    refine heavy (List.sum_eq_zero_iff_forall_eq_nat.mpr fun n among => ?_)
    obtain ⟨node, member, rfl⟩ := List.mem_map.mp among
    exact none node member
  obtain ⟨i, inside, rfl⟩ := List.mem_iff_getElem.mp member
  rw [← slotAt_eq inside] at loaded
  have live : (slotAt m.slots i).Live := fun zero => loaded (load_dead (not_not.mpr zero))
  have same : (slotAt m.slots i).pubpackId = x := by
    by_contra other
    exact loaded (load_other other)
  exact Option.isSome_iff_exists.mp (same ▸ get_isSome placed live)

/-- An id other than 0 that is found weighs something. -/
theorem weight_of_found (placed : Placed m.powerOfCap m.slots) (found : m.get x = some i) (used : x ≠ 0) :
    weight m.slots x ≠ 0 := by
  have live := get_live placed found used
  have among : slotAt m.slots i ∈ m.slots := by
    rw [slotAt_eq (get_lt placed found)]
    exact List.getElem_mem _
  intro light
  refine load_live live ?_
  rw [get_id placed found]
  exact List.sum_eq_zero_iff_forall_eq_nat.mp light _ (List.mem_map_of_mem among)

theorem mem_taken_get (placed : Placed m.powerOfCap m.slots) (found : m.get x = some i) (used : x ≠ 0) :
    slotAt m.slots i ∈ taken m.slots :=
  mem_taken.mpr ⟨i, rfl, get_live placed found used⟩

theorem Carries.found (carries : Carries m.slots x data qos) (placed : Placed m.powerOfCap m.slots)
    (found : m.get x = some i) (used : x ≠ 0) :
    (slotAt m.slots i).data = data ∧ (slotAt m.slots i).qos = qos :=
  carries _ (mem_taken_get placed found used) (get_id placed found)

/-- What an id carries is told by a live node of it. -/
theorem Carries.unique (carries : Carries m.slots x data qos) (placed : Placed m.powerOfCap m.slots)
    (heavy : weight m.slots x ≠ 0) (used : x ≠ 0) {data' : List UInt8} {qos' : UInt8}
    (carries' : Carries m.slots x data' qos') : data = data' ∧ qos = qos' := by
  obtain ⟨i, found⟩ := found_of_weight placed heavy
  obtain ⟨rfl, rfl⟩ := carries.found placed found used
  exact carries'.found placed found used

theorem Carries.set (carries : Carries slots x data qos)
    (written : node.Live → node.pubpackId = x → node.data = data ∧ node.qos = qos) (i : Nat) :
    Carries (slots.set i node) x data qos := by
  intro other member same
  obtain ⟨among, live⟩ := Multiset.mem_filter.mp member
  rcases List.mem_or_eq_of_mem_set (Multiset.mem_coe.mp among) with before | rfl
  · exact carries other (Multiset.mem_filter.mpr ⟨before, live⟩) same
  · exact written live same

/-! ### The calls -/

/-- With room for its id, a message that comes adds its count. -/
theorem add_weight (placed : Placed m.powerOfCap m.slots) (bounded : m.size = m.capacity → m.powerOfCap < 32)
    (room : Room m x) (data : List UInt8) (qos : UInt8) {count : UInt8} (counted : count ≠ 0) (heap : Heap)
    (y : UInt16) :
    weight (m.add x data qos count heap).2.1.slots y =
      weight m.slots y + if (m.add x data qos count heap).1 ∧ y = x then count.toNat else 0 := by
  obtain ⟨-, added⟩ := add_spec placed bounded room data qos counted heap
  rw [weight_taken, weight_taken]
  cases ok : (m.add x data qos count heap).1 with
  | false =>
    rw [ok] at added
    obtain ⟨-⟩ | ⟨holds, -⟩ := added
    rw [holds]
    simp
  | true =>
    rw [ok] at added
    obtain ⟨-, holds, -⟩ := added
    rw [holds, Multiset.map_cons, Multiset.sum_cons, load]
    by_cases same : y = x
    · subst same
      simp only [and_self, if_true]
      omega
    · simp only [same, Ne.symm same, and_false, if_false]
      omega

theorem Carries.add (carries : Carries m.slots y data qos) (placed : Placed m.powerOfCap m.slots)
    (bounded : m.size = m.capacity → m.powerOfCap < 32) (room : Room m x) {frame : List UInt8} {frameQos : UInt8}
    {count : UInt8} (counted : count ≠ 0) (heap : Heap) (same : x = y → frame = data ∧ frameQos = qos) :
    Carries (m.add x frame frameQos count heap).2.1.slots y data qos := by
  obtain ⟨-, added⟩ := add_spec placed bounded room frame frameQos counted heap
  intro node member id
  cases ok : (m.add x frame frameQos count heap).1 with
  | false =>
    rw [ok] at added
    obtain ⟨-⟩ | ⟨holds, -⟩ := added
    exact carries node (holds ▸ member) id
  | true =>
    rw [ok] at added
    obtain ⟨-, holds, -⟩ := added
    rw [holds] at member
    rcases Multiset.mem_cons.mp member with rfl | before
    · exact same id
    · exact carries node before id

/-- A new message is what its id carries if the live nodes of the id do. -/
theorem carries_added (carries : Carries m.slots x data qos) (placed : Placed m.powerOfCap m.slots)
    (bounded : m.size = m.capacity → m.powerOfCap < 32) (room : Room m x) {count : UInt8} (counted : count ≠ 0)
    (heap : Heap) : Carries (m.add x data qos count heap).2.1.slots x data qos :=
  carries.add placed bounded room counted heap fun _ => ⟨rfl, rfl⟩

/-- The count of a node that was looked up is written. -/
theorem placed_recount (placed : Placed m.powerOfCap m.slots) (found : m.get x = some i) {count : UInt8}
    (counted : count ≠ 0) :
    Placed m.powerOfCap (m.slots.set i { slotAt m.slots i with count := count }) := by
  refine placed.set (get_lt placed found) (fun _ => ?_) (absurd counted)
  dsimp only
  rw [get_id placed found]
  exact placed.shaped.get_near found

theorem Carries.recount (carries : Carries m.slots y data qos) (placed : Placed m.powerOfCap m.slots)
    (found : m.get x = some i) (used : y ≠ 0) (count : UInt8) :
    Carries (m.slots.set i { slotAt m.slots i with count := count }) y data qos := by
  refine carries.set (fun _ same => ?_) i
  obtain rfl : x = y := (get_id placed found).symm.trans same
  exact carries.found placed found used

theorem weight_recount (placed : Placed m.powerOfCap m.slots) (found : m.get x = some i) (count : UInt8)
    (y : UInt16) :
    weight (m.slots.set i { slotAt m.slots i with count := count }) y +
        (if y = x then (slotAt m.slots i).count.toNat else 0) =
      weight m.slots y + if y = x then count.toNat else 0 := by
  have changed := weight_set (get_lt placed found) { slotAt m.slots i with count := count } y
  have id := get_id placed found
  by_cases same : y = x
  · subst same
    rw [load, load, if_pos id, if_pos id] at changed
    rw [if_pos rfl, if_pos rfl]
    exact changed
  · rw [load_other (id ▸ Ne.symm same), load_other (id ▸ Ne.symm same)] at changed
    rw [if_neg same, if_neg same]
    exact changed

/-- A count goes up. -/
theorem weight_up (placed : Placed m.powerOfCap m.slots) (found : m.get x = some i)
    (room : (slotAt m.slots i).count ≠ 255) (y : UInt16) :
    weight (m.slots.set i { slotAt m.slots i with count := (slotAt m.slots i).count + 1 }) y =
      weight m.slots y + if y = x then 1 else 0 := by
  have changed := weight_recount placed found ((slotAt m.slots i).count + 1) y
  rw [Logic.toNat_up room] at changed
  by_cases same : y = x
  · rw [if_pos same, if_pos same] at changed
    rw [if_pos same]
    omega
  · rw [if_neg same, if_neg same] at changed
    rw [if_neg same]
    exact changed

/-- The table in which a node has one count less, and is erased if it has none
then. -/
def countedDown (m : PublishHashmap) (x : UInt16) (i : Nat) : PublishHashmap :=
  if (slotAt m.slots i).count - 1 = 0 then
    { m with slots := m.slots.set i { slotAt m.slots i with count := (slotAt m.slots i).count - 1 } }.erase x
  else { m with slots := m.slots.set i { slotAt m.slots i with count := (slotAt m.slots i).count - 1 } }

theorem countedDown_eq (found : m.get x = some i) :
    (countedDown m x i).powerOfCap = m.powerOfCap ∧ (countedDown m x i).slots = m.slots.set i
      (if (slotAt m.slots i).count - 1 = 0 then {}
        else { slotAt m.slots i with count := (slotAt m.slots i).count - 1 }) := by
  unfold countedDown
  by_cases last : (slotAt m.slots i).count - 1 = 0
  · have still := (get_set m i { slotAt m.slots i with count := (slotAt m.slots i).count - 1 } rfl x).trans found
    rw [if_pos last, if_pos last, erase_some still]
    dsimp only
    rw [List.set_set]
    exact ⟨rfl, rfl⟩
  · rw [if_neg last, if_neg last]
    exact ⟨rfl, rfl⟩

theorem placed_countedDown (placed : Placed m.powerOfCap m.slots) (found : m.get x = some i) :
    Placed (countedDown m x i).powerOfCap (countedDown m x i).slots := by
  obtain ⟨power, slots⟩ := countedDown_eq found
  rw [power, slots]
  by_cases last : (slotAt m.slots i).count - 1 = 0
  · rw [if_pos last]
    exact placed.set (get_lt placed found) (fun live => absurd rfl live) fun _ => rfl
  · rw [if_neg last]
    exact placed_recount placed found last

/-- A node without a count weighs as much as none. -/
theorem weight_emptied (placed : Placed m.powerOfCap m.slots) (found : m.get x = some i) (y : UInt16) :
    weight (m.slots.set i {}) y = weight (m.slots.set i { slotAt m.slots i with count := 0 }) y := by
  have inside := get_lt placed found
  have free := weight_set inside {} y
  have dead := weight_set inside { slotAt m.slots i with count := 0 } y
  have light : load y {} = 0 := load_dead fun live => live rfl
  have light' : load y { slotAt m.slots i with count := 0 } = 0 := load_dead fun live => live rfl
  rw [light] at free
  rw [light'] at dead
  exact Nat.add_right_cancel (free.trans dead.symm)

/-- Counting down an id takes one off its own weight. Id 0 is left out: it may be
found in a slot without a count. -/
theorem weight_countedDown (placed : Placed m.powerOfCap m.slots) (found : m.get x = some i) (used : y ≠ 0) :
    weight (countedDown m x i).slots y + (if y = x then 1 else 0) = weight m.slots y := by
  have written : weight (countedDown m x i).slots y =
      weight (m.slots.set i { slotAt m.slots i with count := (slotAt m.slots i).count - 1 }) y := by
    rw [(countedDown_eq found).2]
    by_cases last : (slotAt m.slots i).count - 1 = 0
    · rw [if_pos last, last]
      exact weight_emptied placed found y
    · rw [if_neg last]
  have changed := weight_recount placed found ((slotAt m.slots i).count - 1) y
  rw [written]
  by_cases same : y = x
  · subst same
    have live := get_live placed found used
    have positive : (slotAt m.slots i).count.toNat ≠ 0 := fun zero => live (UInt8.toNat_inj.mp zero)
    rw [if_pos rfl, if_pos rfl, Logic.toNat_down live] at changed
    rw [if_pos rfl]
    omega
  · rw [if_neg same, if_neg same] at changed
    rw [if_neg same]
    exact changed

theorem Carries.countedDown (carries : Carries m.slots y data qos) (placed : Placed m.powerOfCap m.slots)
    (found : m.get x = some i) (used : y ≠ 0) : Carries (countedDown m x i).slots y data qos := by
  rw [(countedDown_eq found).2]
  split
  · exact carries.set (fun live _ => (live rfl).elim) i
  · exact carries.recount placed found used _

end Weights

end MqttBroker.PublishHashmap
