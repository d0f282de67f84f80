import Mathlib.Algebra.Group.Nat.Defs
import Mathlib.Data.Multiset.Filter
import MqttBroker.Myvector

/-! `Publishhashmap`, the table of messages waiting for their subscribers:
open addressing over a power-of-two number of slots, hashed by packet id.

The three probe loops of the source are one loop with a test for the slot it
looks for. The loop compares the probed index with the home index but advances
the home index, so it looks at one slot past the home before the two meet
(`probe_spec`); everything below rests on that lemma alone. -/
namespace MqttBroker

/-- `Publishhashmap::Node_pubmap` -/
structure NodePubmap where
  count : UInt8 := 0
  qos : UInt8 := 0
  pubpackId : UInt16 := 0
  data : List UInt8 := []
  deriving DecidableEq, Repr

/-- A slot is taken as long as its count is not zero. -/
def NodePubmap.Live (node : NodePubmap) : Prop := node.count ≠ 0

instance : DecidablePred NodePubmap.Live := fun node => inferInstanceAs (Decidable (node.count ≠ 0))

/-- The slots are `map`'s storage, `capacity` of them; `size` is the counter
`map.size`, which the table keeps by hand. -/
structure PublishHashmap where
  powerOfCap : Nat
  slots : List NodePubmap
  size : Nat := 0
  deriving DecidableEq, Repr

namespace PublishHashmap

def capacity (m : PublishHashmap) : Nat := m.slots.length

def slotAt (slots : List NodePubmap) (id : Nat) : NodePubmap := slots.getD id {}

/-- `Publishhashmap(init_cap)`, for a capacity of `2 ^ power` slots. -/
def ofPower (power : Nat) : PublishHashmap :=
  { powerOfCap := power, slots := List.replicate (2 ^ power) {} }

def knuthHash (powerOfCap : Nat) (x : UInt16) : Nat :=
  (x.toUInt32 * 2654435769).toNat >>> (32 - powerOfCap)

/-- `for (; cur_id != id; ++id)` with its body, from `cur_id` and `id` to their
values after the loop. `std::size_t` has 32 bits on this device, so the
home index wraps; the fuel covers every index it can take. -/
def probeLoop (hit : NodePubmap → Bool) (slots : List NodePubmap) : Nat → Nat → Nat → Nat × Nat
  | 0, curId, id => (curId, id)
  | fuel + 1, curId, id =>
    if curId = id then (curId, id)
    else
      let curId := if curId = slots.length then 0 else curId
      if hit (slotAt slots curId) then (curId, id)
      else probeLoop hit slots fuel curId ((id + 1) % 2 ^ 32)

def probe (hit : NodePubmap → Bool) (slots : List NodePubmap) (id : Nat) : Nat × Nat :=
  probeLoop hit slots (2 ^ 32 + 1) (id + 1) id

/-- The answer is the index of the slot `get` points to. -/
def get (m : PublishHashmap) (pubpackGetId : UInt16) : Option Nat :=
  let id := knuthHash m.powerOfCap pubpackGetId
  if (slotAt m.slots id).pubpackId ≠ pubpackGetId then
    let stop := probe (·.pubpackId = pubpackGetId) m.slots id
    if stop.1 = stop.2 then none else some stop.1
  else some id

/-- Where `add` and `rehash` put an entry: `cur_id` after the loop, whatever
ended it. -/
def freeSlot (powerOfCap : Nat) (slots : List NodePubmap) (pubpackId : UInt16) : Nat :=
  let id := knuthHash powerOfCap pubpackId
  if (slotAt slots id).count ≠ 0 then (probe (·.count = 0) slots id).1 else id

/-- One iteration of the loop in `rehash`. -/
def rehashNode (powerOfCap : Nat) (newSlots : List NodePubmap) (node : NodePubmap) : List NodePubmap :=
  if node.count = 0 then newSlots
  else newSlots.set (freeSlot powerOfCap newSlots node.pubpackId) node

/-- `rehash` into twice the slots. Its loop runs to `map.end()`, which is
`map.size` slots from the start. -/
def rehashed (m : PublishHashmap) : PublishHashmap :=
  { powerOfCap := m.powerOfCap + 1
    slots := (m.slots.take m.size).foldl (rehashNode (m.powerOfCap + 1))
      (List.replicate (m.capacity * 2) {})
    size := m.size }

def rehash (m : PublishHashmap) (heap : Heap) : Bool × PublishHashmap × Heap :=
  if heap.alloc.1 then (true, m.rehashed, heap.alloc.2) else (false, m, heap.alloc.2)

/-- The part of `add` after the table has its final size. -/
def place (m : PublishHashmap) (pubpackId : UInt16) (data : List UInt8) (msgQos initCount : UInt8)
    (heap : Heap) : Bool × PublishHashmap × Heap :=
  let id := freeSlot m.powerOfCap m.slots pubpackId
  let stored := Myvector.ofRange data heap
  if stored.1.elems = [] then
    (false, { m with slots := m.slots.set id { slotAt m.slots id with data := [] } }, stored.2)
  else
    (true, { m with
      slots := m.slots.set id
        { count := initCount, qos := msgQos, pubpackId := pubpackId, data := stored.1.elems }
      size := (m.size + 1) % 2 ^ 32 }, stored.2)

def add (m : PublishHashmap) (pubpackId : UInt16) (data : List UInt8) (msgQos : UInt8)
    (initCount : UInt8) (heap : Heap) : Bool × PublishHashmap × Heap :=
  if m.size = m.capacity then
    let grown := m.rehash heap
    if grown.1 then grown.2.1.place pubpackId data msgQos initCount grown.2.2
    else (false, grown.2.1, grown.2.2)
  else m.place pubpackId data msgQos initCount heap

/-- The counter is a `std::size_t`: an erase too many wraps it. -/
def erase (m : PublishHashmap) (pubpackId : UInt16) : PublishHashmap :=
  match m.get pubpackId with
  | none => m
  | some id => { m with slots := m.slots.set id {}, size := (m.size + (2 ^ 32 - 1)) % 2 ^ 32 }

/-! ### What the loops do -/

/-- The slot after `id`, from the last slot back to the first. -/
def nextSlot (capacity id : Nat) : Nat := if id + 1 = capacity then 0 else id + 1

theorem knuthHash_lt (powerOfCap : Nat) (x : UInt16) : knuthHash powerOfCap x < 2 ^ powerOfCap := by
  have word := (x.toUInt32 * 2654435769).toNat_lt
  unfold knuthHash
  rw [Nat.shiftRight_eq_div_pow]
  by_cases wide : powerOfCap ≤ 32
  · apply Nat.div_lt_of_lt_mul
    rwa [← Nat.pow_add, Nat.sub_add_cancel wide]
  · rw [Nat.sub_eq_zero_of_le (by omega), Nat.pow_zero, Nat.div_one]
    exact word.trans (Nat.pow_lt_pow_right (by decide) (by omega))

theorem nextSlot_lt {capacity id : Nat} (inside : id < capacity) : nextSlot capacity id < capacity := by
  unfold nextSlot
  split <;> omega

/-- Past the last slot the probed index stays at slot 0 until the home index
has wrapped around to meet it. -/
private theorem probe_loop_wraps {hit : NodePubmap → Bool} {slots : List NodePubmap}
    (miss : hit (slotAt slots 0) = false) (some : slots.length ≠ 0) (id fuel : Nat)
    (small : id < 2 ^ 32) (enough : 2 ^ 32 - id < fuel) :
    probeLoop hit slots fuel 0 (id % 2 ^ 32) = (0, 0) ∨ id = 0 := by
  induction fuel generalizing id with
  | zero => omega
  | succ fuel ih =>
    by_cases start : id = 0
    · exact .inr start
    · left
      rw [Nat.mod_eq_of_lt small]
      simp only [probeLoop, Ne.symm start, ↓reduceIte, Ne.symm some, miss, Bool.false_eq_true]
      by_cases last : id + 1 = 2 ^ 32
      · cases fuel with
        | zero => omega
        | succ fuel => simp [last, probeLoop]
      · exact (ih (id + 1) (by omega) (by omega)).resolve_right (by omega)

/-- Whatever the table holds, a probe ends at the slot after its home, and it
reports a hit exactly when that slot is one. -/
theorem probe_spec (hit : NodePubmap → Bool) (slots : List NodePubmap) (id : Nat)
    (inside : id < slots.length) (two : 2 ≤ slots.length) (small : slots.length ≤ 2 ^ 32) :
    (probe hit slots id).1 = nextSlot slots.length id ∧
      ((probe hit slots id).1 = (probe hit slots id).2 ↔
        hit (slotAt slots (nextSlot slots.length id)) = false) := by
  unfold probe nextSlot
  rw [probeLoop, if_neg (by omega)]
  by_cases last : id + 1 = slots.length
  · simp only [last, ↓reduceIte]
    cases found : hit (slotAt slots 0) with
    | true => simp; omega
    | false =>
      simp only [Bool.false_eq_true, ↓reduceIte]
      by_cases full : slots.length = 2 ^ 32
      · simp [full, probeLoop]
      · rw [(probe_loop_wraps found (by omega) slots.length (2 ^ 32) (by omega)
          (by omega)).resolve_right (by omega)]
        simp
  · simp only [last, ↓reduceIte]
    cases found : hit (slotAt slots (id + 1)) with
    | true => simp
    | false =>
      simp only [Bool.false_eq_true, ↓reduceIte, Nat.mod_eq_of_lt (show id + 1 < 2 ^ 32 by omega)]
      simp [probeLoop]

private theorem probe_loop_congr {hit : NodePubmap → Bool} {slots slots' : List NodePubmap}
    (length : slots'.length = slots.length)
    (same : ∀ j, hit (slotAt slots' j) = hit (slotAt slots j)) (fuel curId id : Nat) :
    probeLoop hit slots' fuel curId id = probeLoop hit slots fuel curId id := by
  induction fuel generalizing curId id with
  | zero => rfl
  | succ fuel ih => simp only [probeLoop, length, same, ih]

/-- A lookup reads nothing but the packet ids. -/
theorem get_congr {m m' : PublishHashmap} (power : m'.powerOfCap = m.powerOfCap)
    (length : m'.slots.length = m.slots.length)
    (ids : ∀ j, (slotAt m'.slots j).pubpackId = (slotAt m.slots j).pubpackId) (x : UInt16) :
    m'.get x = m.get x := by
  have probes : ∀ id, probe (·.pubpackId = x) m'.slots id = probe (·.pubpackId = x) m.slots id :=
    fun id => probe_loop_congr length (fun j => by rw [ids]) _ _ _
  simp only [get, power, ids, probes]

-- The fuel is for the loop, never for unfolding it in a proof.
attribute [irreducible] probe

/-- A table of `2 ^ power` slots, two at least and no more than indices. -/
structure Shaped (powerOfCap : Nat) (slots : List NodePubmap) : Prop where
  width : slots.length = 2 ^ powerOfCap
  positive : 1 ≤ powerOfCap
  small : powerOfCap ≤ 32

namespace Shaped
variable {power : Nat} {slots : List NodePubmap} {m : PublishHashmap} {x : UInt16} {i : Nat}

theorem hash_lt (shaped : Shaped power slots) (x : UInt16) : knuthHash power x < slots.length := by
  rw [shaped.width]
  exact knuthHash_lt power x

theorem two (shaped : Shaped power slots) : 2 ≤ slots.length := by
  rw [shaped.width]
  exact (Nat.pow_le_pow_right (by omega) shaped.positive : 2 ^ 1 ≤ 2 ^ power)

theorem within (shaped : Shaped power slots) : slots.length ≤ 2 ^ 32 := by
  rw [shaped.width]
  exact Nat.pow_le_pow_right (by omega) shaped.small

theorem get_eq (shaped : Shaped m.powerOfCap m.slots) (x : UInt16) :
    m.get x =
      if (slotAt m.slots (knuthHash m.powerOfCap x)).pubpackId = x then
        some (knuthHash m.powerOfCap x)
      else if (slotAt m.slots (nextSlot m.slots.length (knuthHash m.powerOfCap x))).pubpackId = x then
        some (nextSlot m.slots.length (knuthHash m.powerOfCap x))
      else none := by
  obtain ⟨stop, hits⟩ := probe_spec (·.pubpackId = x) m.slots (knuthHash m.powerOfCap x)
    (shaped.hash_lt x) shaped.two shaped.within
  rw [stop] at hits
  simp only [get, ne_eq, ite_not, stop, hits]
  split
  · rfl
  · by_cases hit : (slotAt m.slots (nextSlot m.slots.length (knuthHash m.powerOfCap x))).pubpackId = x
      <;> simp [hit]

theorem freeSlot_eq (shaped : Shaped power slots) (x : UInt16) :
    freeSlot power slots x =
      if (slotAt slots (knuthHash power x)).Live then nextSlot slots.length (knuthHash power x)
      else knuthHash power x := by
  have spec := probe_spec (·.count = 0) slots (knuthHash power x)
    (shaped.hash_lt x) shaped.two shaped.within
  by_cases taken : (slotAt slots (knuthHash power x)).count = 0 <;>
    simp [freeSlot, spec.1, NodePubmap.Live, taken]

theorem freeSlot_lt (shaped : Shaped power slots) (x : UInt16) : freeSlot power slots x < slots.length := by
  rw [shaped.freeSlot_eq]
  split
  · exact nextSlot_lt (shaped.hash_lt x)
  · exact shaped.hash_lt x

theorem freeSlot_near (shaped : Shaped power slots) (x : UInt16) :
    freeSlot power slots x = knuthHash power x ∨
      freeSlot power slots x = nextSlot slots.length (knuthHash power x) := by
  rw [shaped.freeSlot_eq]
  split
  · exact .inr rfl
  · exact .inl rfl

theorem get_near (shaped : Shaped m.powerOfCap m.slots) (found : m.get x = some i) :
    i = knuthHash m.powerOfCap x ∨ i = nextSlot m.slots.length (knuthHash m.powerOfCap x) := by
  rw [shaped.get_eq] at found
  split at found
  · exact .inl (Option.some.inj found).symm
  · split at found
    · exact .inr (Option.some.inj found).symm
    · cases found

theorem get_lt (shaped : Shaped m.powerOfCap m.slots) (found : m.get x = some i) : i < m.slots.length := by
  rcases shaped.get_near found with rfl | rfl
  · exact shaped.hash_lt x
  · exact nextSlot_lt (shaped.hash_lt x)

theorem get_id (shaped : Shaped m.powerOfCap m.slots) (found : m.get x = some i) :
    (slotAt m.slots i).pubpackId = x := by
  rw [shaped.get_eq] at found
  split at found
  · exact Option.some.inj found ▸ ‹_›
  · split at found
    · exact Option.some.inj found ▸ ‹_›
    · cases found

/-- A lookup answers with a slot of the id if one of its two slots has it. -/
theorem get_of_near (shaped : Shaped m.powerOfCap m.slots) (holds : (slotAt m.slots i).pubpackId = x)
    (near : i = knuthHash m.powerOfCap x ∨ i = nextSlot m.slots.length (knuthHash m.powerOfCap x)) :
    (m.get x).isSome := by
  rw [shaped.get_eq]
  split
  · rfl
  · split
    · rfl
    · rename_i home next
      rcases near with rfl | rfl
      · exact absurd holds home
      · exact absurd holds next

end Shaped

/-- A table of `2 ^ power` slots in which every taken slot can be reached and
every free slot carries no packet id. -/
structure Placed (powerOfCap : Nat) (slots : List NodePubmap) : Prop where
  width : slots.length = 2 ^ powerOfCap
  positive : 1 ≤ powerOfCap
  small : powerOfCap ≤ 32
  near : ∀ i, (slotAt slots i).Live →
    i = knuthHash powerOfCap (slotAt slots i).pubpackId ∨
      i = nextSlot slots.length (knuthHash powerOfCap (slotAt slots i).pubpackId)
  vacant : ∀ i, ¬ (slotAt slots i).Live → (slotAt slots i).pubpackId = 0

section Placed
variable {power : Nat} {slots : List NodePubmap} {m : PublishHashmap} {x : UInt16} {i : Nat}

theorem Placed.shaped (placed : Placed power slots) : Shaped power slots :=
  ⟨placed.width, placed.positive, placed.small⟩

theorem Placed.two (placed : Placed power slots) : 2 ≤ slots.length := placed.shaped.two

theorem Placed.lt_of_live (live : (slotAt slots i).Live) : i < slots.length := by
  apply Classical.byContradiction
  intro outside
  have free : slotAt slots i = {} := by simp [slotAt, List.getElem?_eq_none (Nat.not_lt.mp outside)]
  exact live (congrArg NodePubmap.count free)

/-- `get` looks at the home slot and the one after it. -/
theorem get_eq (placed : Placed m.powerOfCap m.slots) (x : UInt16) :
    m.get x =
      if (slotAt m.slots (knuthHash m.powerOfCap x)).pubpackId = x then
        some (knuthHash m.powerOfCap x)
      else if (slotAt m.slots (nextSlot m.slots.length (knuthHash m.powerOfCap x))).pubpackId = x then
        some (nextSlot m.slots.length (knuthHash m.powerOfCap x))
      else none :=
  placed.shaped.get_eq x

/-- `add` and `rehash` take the home slot if it is free and the one after it,
free or not, if it is taken. -/
theorem freeSlot_eq (placed : Placed power slots) (x : UInt16) :
    freeSlot power slots x =
      if (slotAt slots (knuthHash power x)).Live then nextSlot slots.length (knuthHash power x)
      else knuthHash power x :=
  placed.shaped.freeSlot_eq x

theorem freeSlot_lt (placed : Placed power slots) (x : UInt16) :
    freeSlot power slots x < slots.length :=
  placed.shaped.freeSlot_lt x

theorem get_lt (placed : Placed m.powerOfCap m.slots) (found : m.get x = some i) :
    i < m.slots.length :=
  placed.shaped.get_lt found

theorem get_id (placed : Placed m.powerOfCap m.slots) (found : m.get x = some i) :
    (slotAt m.slots i).pubpackId = x :=
  placed.shaped.get_id found

/-- A nonzero id is found in a taken slot only. -/
theorem get_live (placed : Placed m.powerOfCap m.slots) (found : m.get x = some i)
    (nonzero : x ≠ 0) : (slotAt m.slots i).Live := by
  apply Classical.byContradiction
  intro free
  exact nonzero ((get_id placed found).symm.trans (placed.vacant i free))

/-- An id in some taken slot is found, though perhaps in another slot. -/
theorem get_isSome (placed : Placed m.powerOfCap m.slots) (live : (slotAt m.slots i).Live) :
    (m.get (slotAt m.slots i).pubpackId).isSome :=
  placed.shaped.get_of_near rfl (placed.near i live)

end Placed

end PublishHashmap
end MqttBroker
