import Mathlib.Logic.Basic

/-! `myvector` and the allocations it makes. The element storage is the list
of live elements; its spare room is only a number, because no operation of
the broker reads past `size`. -/
namespace MqttBroker

/-- The outcomes of the next `new (std::nothrow)` calls, in order. Once the
list has run out, allocation succeeds. -/
abbrev Heap := List Bool

def Heap.alloc : Heap → Bool × Heap
  | [] => (true, [])
  | outcome :: rest => (outcome, rest)

@[simp] theorem Heap.alloc_nil : Heap.alloc [] = (true, []) := rfl

/-- `myvector<T>`; `size` is the length of `elems`. -/
structure Myvector (α : Type) where
  elems : List α := []
  capacity : Nat := 0
  deriving DecidableEq, Repr

namespace Myvector

def size (v : Myvector α) : Nat := v.elems.length

/-- `CAPACITY_RESIZE` -/
def capacityResize : Nat := 2

/-- `myvector(T *p_begin, T *p_end)`: empty, and without an allocation, for an
empty range. -/
def ofRange (range : List α) (heap : Heap) : Myvector α × Heap :=
  if range.length = 0 then ({}, heap)
  else if heap.alloc.1 then (⟨range, range.length⟩, heap.alloc.2)
  else ({}, heap.alloc.2)

/-- `operator=(myvector<T> &vec)`: a failed copy leaves the target as it was. -/
def assign (v vec : Myvector α) (heap : Heap) : Myvector α × Heap :=
  if heap.alloc.1 then (⟨vec.elems, vec.size⟩, heap.alloc.2) else (v, heap.alloc.2)

def reserve (v : Myvector α) (cap : Nat) (heap : Heap) : Bool × Myvector α × Heap :=
  if heap.alloc.1 then (true, { v with capacity := cap }, heap.alloc.2)
  else (false, v, heap.alloc.2)

def pushBack (v : Myvector α) (val : α) (heap : Heap) : Myvector α × Heap :=
  if v.size + 1 > v.capacity then
    if heap.alloc.1 then (⟨v.elems ++ [val], v.capacity + capacityResize⟩, heap.alloc.2)
    else (v, heap.alloc.2)
  else (⟨v.elems ++ [val], v.capacity⟩, heap)

def insert (v : Myvector α) (pos : Nat) (val : α) (heap : Heap) : Bool × Myvector α × Heap :=
  if pos ≥ v.size then (false, v, heap)
  else if v.size + 1 > v.capacity then
    if heap.alloc.1 then
      (true, ⟨v.elems.take pos ++ val :: v.elems.drop pos, v.capacity + capacityResize⟩,
        heap.alloc.2)
    else (false, v, heap.alloc.2)
  else (true, ⟨v.elems.take pos ++ val :: v.elems.drop pos, v.capacity⟩, heap)

@[simp] theorem ofRange_nil_heap (range : List α) : (ofRange range []).1.elems = range := by
  unfold ofRange
  split
  · exact (List.eq_nil_of_length_eq_zero ‹_›).symm
  · rfl

@[simp] theorem ofRange_heap_nil (range : List α) : (ofRange range []).2 = [] := by
  unfold ofRange
  split <;> rfl

end Myvector
end MqttBroker
