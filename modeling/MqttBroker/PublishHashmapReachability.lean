import MqttBroker.Logic.Program
import MqttBroker.PublishHashmapContents

/-! Where the messages of the table are: whatever calls have been made, every
taken slot, and every other one that still has an id, is one of the two that
`get` looks at for its id. -/
namespace MqttBroker.PublishHashmapReachability
open PublishHashmap Logic

/-- One call of the table, with the outcomes of its allocations. -/
inductive Op
  | add (pubpackId : UInt16) (data : List UInt8) (qos count : UInt8) (heap : Heap)
  | erase (pubpackId : UInt16)
  | rehash (heap : Heap)
  /-- A caller writes the count of the node it has looked up, and erases the id
  if that is 0. -/
  | recount (pubpackId : UInt16) (count : UInt8)

def call (m : PublishHashmap) : Op → PublishHashmap
  | .add id data qos count heap => (m.add id data qos count heap).2.1
  | .erase id => m.erase id
  | .rehash heap => (m.rehash heap).2.1
  | .recount id count =>
    match m.get id with
    | none => m
    | some i =>
      let written := { m with slots := m.slots.set i { slotAt m.slots i with count := count } }
      if count = 0 then written.erase id else written

/-- Growth on its own, outside of `add`, keeps the shift of the hash below 32. -/
def Allowed (m : PublishHashmap) : Op → Prop
  | .rehash _ => m.powerOfCap < 32
  | _ => True

def Step (m m' : PublishHashmap) : Prop := ∃ op, Allowed m op ∧ m' = call m op

/-- The tables of every sequence of calls on an empty one of `2 ^ power`
slots. -/
def Reached (power : Nat) (m : PublishHashmap) : Prop := Relation.ReflTransGen Step (ofPower power) m

/-- Slot `i` is one of the two that are looked at for an id. -/
def Probed (power : Nat) (slots : List NodePubmap) (x : UInt16) (i : Nat) : Prop :=
  i = knuthHash power x ∨ i = nextSlot slots.length (knuthHash power x)

/-- A slot that is taken or has an id is probed for that id. -/
def InReach (power : Nat) (slots : List NodePubmap) : Prop :=
  ∀ i, (slotAt slots i).Live ∨ (slotAt slots i).pubpackId ≠ 0 → Probed power slots (slotAt slots i).pubpackId i

structure Findable (m : PublishHashmap) : Prop where
  shaped : Shaped m.powerOfCap m.slots
  sized : m.size < 2 ^ 32
  near : InReach m.powerOfCap m.slots

variable {power : Nat} {slots : List NodePubmap} {m m' : PublishHashmap} {x : UInt16} {i : Nat}
  {node : NodePubmap} {heap : Heap}

/-! ### One slot -/

theorem shaped_set (shaped : Shaped power slots) : Shaped power (slots.set i node) :=
  ⟨by rw [List.length_set, shaped.width], shaped.positive, shaped.small⟩

theorem near_set (near : InReach power slots) (inside : i < slots.length)
    (probed : node.Live ∨ node.pubpackId ≠ 0 → Probed power slots node.pubpackId i) :
    InReach power (slots.set i node) := by
  intro j used
  rw [slotAt_set inside] at used ⊢
  rw [Probed, List.length_set]
  by_cases same : j = i
  · subst same
    rw [if_pos rfl] at used ⊢
    exact probed used
  · rw [if_neg same] at used ⊢
    exact near j used

theorem near_replicate (power n : Nat) : InReach power (List.replicate n {}) := by
  have empty : ∀ i, slotAt (List.replicate n {}) i = {} := by
    intro i
    simp only [slotAt, List.getD_eq_getElem?_getD, List.getElem?_replicate]
    split <;> rfl
  intro i used
  rw [empty] at used
  rcases used with live | named
  · exact absurd rfl live
  · exact absurd rfl named

/-! ### Growth -/

theorem rehashNode_near (shaped : Shaped power slots) (near : InReach power slots) (node : NodePubmap) :
    Shaped power (rehashNode power slots node) ∧ InReach power (rehashNode power slots node) := by
  unfold rehashNode
  split
  · exact ⟨shaped, near⟩
  · exact ⟨shaped_set shaped, near_set near (shaped.freeSlot_lt _) fun _ => shaped.freeSlot_near _⟩

/-- A grown table has its nodes in reach, with the hash of its own size. -/
theorem rehashNodes_near (shaped : Shaped power slots) (near : InReach power slots) (nodes : List NodePubmap) :
    Shaped power (nodes.foldl (rehashNode power) slots) ∧ InReach power (nodes.foldl (rehashNode power) slots) := by
  induction nodes generalizing slots with
  | nil => exact ⟨shaped, near⟩
  | cons node nodes ih =>
    obtain ⟨shaped, near⟩ := rehashNode_near shaped near node
    exact ih shaped near

namespace Findable

theorem rehashed (findable : Findable m) (bounded : m.powerOfCap < 32) : Findable m.rehashed := by
  have width : m.capacity * 2 = 2 ^ (m.powerOfCap + 1) := by
    rw [capacity, findable.shaped.width, Nat.pow_succ]
  have empty : Shaped (m.powerOfCap + 1) (List.replicate (m.capacity * 2) {}) :=
    ⟨by rw [List.length_replicate, width], Nat.le_add_left 1 _, bounded⟩
  obtain ⟨shaped, near⟩ := rehashNodes_near empty (near_replicate _ _) (m.slots.take m.size)
  exact ⟨shaped, findable.sized, near⟩

theorem rehash (findable : Findable m) (bounded : m.powerOfCap < 32) (heap : Heap) :
    Findable (m.rehash heap).2.1 := by
  unfold PublishHashmap.rehash
  split
  · exact findable.rehashed bounded
  · exact findable

/-- A full table still grows within the indices there are, for its counter is
one of them. -/
theorem bounded (findable : Findable m) (full : m.size = m.capacity) : m.powerOfCap < 32 := by
  have sized := findable.sized
  rw [full, capacity, findable.shaped.width] at sized
  exact (Nat.pow_lt_pow_iff_right (by decide)).mp sized

/-! ### The calls -/

theorem place (findable : Findable m) (x : UInt16) (data : List UInt8) (qos count : UInt8) (heap : Heap) :
    Findable (m.place x data qos count heap).2.1 := by
  have inside := findable.shaped.freeSlot_lt x
  unfold PublishHashmap.place
  dsimp only
  split
  · -- the data of the slot is gone, its id and count are not
    exact ⟨shaped_set findable.shaped, findable.sized, near_set findable.near inside (findable.near _)⟩
  · refine ⟨shaped_set findable.shaped, Nat.mod_lt _ (by decide), near_set findable.near inside ?_⟩
    exact fun _ => findable.shaped.freeSlot_near x

theorem add (findable : Findable m) (x : UInt16) (data : List UInt8) (qos count : UInt8) (heap : Heap) :
    Findable (m.add x data qos count heap).2.1 := by
  unfold PublishHashmap.add
  split
  · have grown := findable.rehash (findable.bounded ‹_›) heap
    dsimp only
    split
    · exact grown.place x data qos count _
    · exact grown
  · exact findable.place x data qos count heap

theorem grown (findable : Findable m) : Findable m.grown := by
  unfold PublishHashmap.grown
  split
  · exact findable.rehashed (findable.bounded ‹_›)
  · exact findable

theorem erase (findable : Findable m) (x : UInt16) : Findable (m.erase x) := by
  cases found : m.get x with
  | none =>
    rw [erase_none found]
    exact findable
  | some i =>
    rw [erase_some found]
    refine ⟨shaped_set findable.shaped, Nat.mod_lt _ (by decide), ?_⟩
    refine near_set findable.near (findable.shaped.get_lt found) fun used => ?_
    rcases used with live | named
    · exact absurd rfl live
    · exact absurd rfl named

/-- The node that is written was found where its id is looked for, even if the
id is 0 and the slot was free. -/
theorem recount (findable : Findable m) (found : m.get x = some i) (count : UInt8) :
    Findable { m with slots := m.slots.set i { slotAt m.slots i with count := count } } := by
  refine ⟨shaped_set findable.shaped, findable.sized, ?_⟩
  refine near_set findable.near (findable.shaped.get_lt found) fun _ => ?_
  dsimp only
  rw [findable.shaped.get_id found]
  exact findable.shaped.get_near found

theorem call (findable : Findable m) {op : Op} (allowed : Allowed m op) :
    Findable (PublishHashmapReachability.call m op) := by
  cases op with
  | add id data qos count heap => exact findable.add id data qos count heap
  | erase id => exact findable.erase id
  | rehash heap => exact findable.rehash allowed heap
  | recount id count =>
    simp only [PublishHashmapReachability.call]
    cases found : m.get id with
    | none => exact findable
    | some i =>
      dsimp only
      split
      · exact (findable.recount found count).erase id
      · exact findable.recount found count

end Findable

/-- An older entry of the id is where a lookup of the id looks first. -/
def Elder (m : PublishHashmap) (x : UInt16) : Prop :=
  (slotAt m.grown.slots (knuthHash m.grown.powerOfCap x)).Live ∧
    (slotAt m.grown.slots (knuthHash m.grown.powerOfCap x)).pubpackId = x

instance (m : PublishHashmap) (x : UInt16) : Decidable (Elder m x) := inferInstanceAs (Decidable (_ ∧ _))

/-- An entry that is stored is found under its id unless an older one is. -/
theorem get_added (findable : Findable m) {data : List UInt8} {qos count : UInt8}
    (stored : (m.add x data qos count heap).1 = true) :
    (m.add x data qos count heap).2.1.get x = some (freeSlot m.grown.powerOfCap m.grown.slots x) ↔ ¬ Elder m x := by
  have shaped := findable.grown.shaped
  have inside := shaped.freeSlot_lt x
  have shaped' : Shaped (m.add x data qos count heap).2.1.powerOfCap (m.add x data qos count heap).2.1.slots :=
    (findable.add x data qos count heap).shaped
  rw [shaped'.get_eq, add_stored stored]
  dsimp only
  rw [slotAt_set inside, slotAt_set inside, List.length_set]
  rw [shaped.freeSlot_eq] at inside ⊢
  unfold Elder
  by_cases taken : (slotAt m.grown.slots (knuthHash m.grown.powerOfCap x)).Live
  · have apart : nextSlot m.grown.slots.length (knuthHash m.grown.powerOfCap x) ≠ knuthHash m.grown.powerOfCap x := by
      have two := shaped.two
      unfold nextSlot
      split <;> omega
    simp only [taken, if_true, true_and, if_neg apart.symm]
    by_cases same : (slotAt m.grown.slots (knuthHash m.grown.powerOfCap x)).pubpackId = x
    · simp [same, apart.symm]
    · simp [same]
  · simp [taken]

theorem reached_findable (positive : 1 ≤ power) (small : power < 32) (reached : Reached power m) : Findable m := by
  refine reached_invariant (fun m m' findable step => ?_) ?_ reached
  · obtain ⟨op, allowed, rfl⟩ := step
    exact findable.call allowed
  · exact ⟨⟨List.length_replicate, positive, small.le⟩, Nat.two_pow_pos 32, near_replicate power _⟩

/-- No live message becomes unreachable: it stays in one of the two slots of
its id, and a lookup of the id answers with a slot of the id. -/
theorem live_reachable (positive : 1 ≤ power) (small : power < 32) (reached : Reached power m)
    (live : (slotAt m.slots i).Live) :
    Probed m.powerOfCap m.slots (slotAt m.slots i).pubpackId i ∧
      ∃ j, m.get (slotAt m.slots i).pubpackId = some j ∧
        (slotAt m.slots j).pubpackId = (slotAt m.slots i).pubpackId := by
  have findable := reached_findable positive small reached
  have probed := findable.near i (.inl live)
  obtain ⟨j, found⟩ := Option.isSome_iff_exists.mp (findable.shaped.get_of_near rfl probed)
  exact ⟨probed, j, found, findable.shaped.get_id found⟩

/-- Ids 1 and 22 share their home; the second stays reachable when the first
is erased. -/
theorem neighbour_reachable :
    ∃ m, Reached 5 m ∧ (slotAt m.slots 20).Live ∧ Probed m.powerOfCap m.slots (slotAt m.slots 20).pubpackId 20 ∧
      ∃ j, m.get (slotAt m.slots 20).pubpackId = some j ∧
        (slotAt m.slots j).pubpackId = (slotAt m.slots 20).pubpackId := by
  have reached : Reached 5 (call (call (call (ofPower 5) (.add 1 [0x32] 1 1 [])) (.add 22 [0x34] 2 1 [])) (.erase 1)) :=
    ((Relation.ReflTransGen.single ⟨.add 1 [0x32] 1 1 [], trivial, rfl⟩).tail
      ⟨.add 22 [0x34] 2 1 [], trivial, rfl⟩).tail ⟨.erase 1, trivial, rfl⟩
  have live : (slotAt (call (call (call (ofPower 5) (.add 1 [0x32] 1 1 [])) (.add 22 [0x34] 2 1 []))
      (.erase 1)).slots 20).Live := by decide +kernel
  exact ⟨_, reached, live, live_reachable (by decide) (by decide) reached live⟩

end MqttBroker.PublishHashmapReachability
