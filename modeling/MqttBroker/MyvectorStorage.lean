import Mathlib.Algebra.Group.Nat.Defs
import MqttBroker.Logic.Blocks
import MqttBroker.Myvector

/-! `myvector` down to its storage: the cells, the copies between and within
them, and which of them hold an element. Over it, the list a vector stands for;
`Myvector` is that list with the capacity. -/
namespace MqttBroker.MyvectorStorage
open Logic Block

/-- `myvector<T>` with its array. No cells stand for a null pointer and for an
array of length 0, which no operation here tells apart. -/
structure Storage (α : Type) where
  data : Block α := []
  capacity : Nat := 0
  size : Nat := 0
  deriving DecidableEq, Repr

/-- Whether `new (std::nothrow) T[n]` succeeds. It never does for more than
`PTRDIFF_MAX` bytes. -/
def granted (n : Nat) (heap : Heap) : Bool := heap.alloc.1 && decide (n < 2 ^ 31)

def allocV (n : Nat) (heap : Heap) : Option (Block α) × Heap :=
  (if granted n heap then some (List.replicate n none) else none, heap.alloc.2)

/-- The sum of two `std::size_t`, which has 32 bits. -/
def plus (a b : Nat) : Nat := (a + b) % 2 ^ 32

variable {α : Type}

def pushBack (v : Storage α) (val : α) (heap : Heap) : Option (Storage α × Heap) :=
  if plus v.size 1 > v.capacity then
    let alloc := allocV (plus v.capacity Myvector.capacityResize) heap
    match alloc.1 with
    | none => some (v, alloc.2)
    | some ptr => do
      let ptr ← copy v.data v.size 0 0 ptr
      let data ← ptr.write v.size val
      some (⟨data, plus v.capacity Myvector.capacityResize, plus v.size 1⟩, alloc.2)
  else do
    let data ← v.data.write v.size val
    some ({ v with data := data, size := plus v.size 1 }, heap)

def shrinkToFit (v : Storage α) (heap : Heap) : Option (Storage α × Heap) :=
  let alloc := allocV v.size heap
  match alloc.1 with
  | none => some (v, alloc.2)
  | some newptr => do
    let newptr ← copy v.data v.size 0 0 newptr
    some ({ v with data := newptr, capacity := v.size }, alloc.2)

def reserve (v : Storage α) (cap : Nat) (heap : Heap) : Option (Bool × Storage α × Heap) :=
  let alloc := allocV cap heap
  match alloc.1 with
  | none => some (false, v, alloc.2)
  | some ptr => do
    let ptr ← if v.size > 0 then copy v.data v.size 0 0 ptr else some ptr
    some (true, { v with data := ptr, capacity := cap }, alloc.2)

/-- The elements from `pos` on move to the cell behind theirs, in a new array or
in the old one. -/
def insert (v : Storage α) (pos : Nat) (val : α) (heap : Heap) : Option (Bool × Storage α × Heap) :=
  if pos ≥ v.size then some (false, v, heap)
  else if plus v.size 1 > v.capacity then
    let alloc := allocV (plus v.capacity Myvector.capacityResize) heap
    match alloc.1 with
    | none => some (false, v, alloc.2)
    | some ptr => do
      let ptr ← copy v.data pos 0 0 ptr
      let ptr ← ptr.write pos val
      let ptr ← copy v.data (v.size - pos) pos (pos + 1) ptr
      some (true, ⟨ptr, plus v.capacity Myvector.capacityResize, plus v.size 1⟩, alloc.2)
  else do
    let data ← copyBackward (v.size - pos) v.size (v.size + 1) v.data
    let data ← data.write pos val
    some (true, { v with data := data, size := plus v.size 1 }, heap)

/-- One call of the interface. -/
inductive Op (α : Type)
  | pushBack (val : α)
  | insert (pos : Nat) (val : α)
  | reserve (cap : Nat)
  | shrinkToFit
  deriving DecidableEq, Repr

/-- The vector after a call, with the answer of those that give one. -/
def call (v : Storage α) (heap : Heap) : Op α → Option (Option Bool × Storage α × Heap)
  | .pushBack val => (pushBack v val heap).map fun result => (none, result)
  | .insert pos val => (insert v pos val heap).map fun result => (some result.1, result.2)
  | .reserve cap => (reserve v cap heap).map fun result => (some result.1, result.2)
  | .shrinkToFit => (shrinkToFit v heap).map fun result => (none, result)

/-! ### The list it stands for -/

/-- The caller's side: no less is reserved than there is. -/
def Op.Allowed (v : Storage α) : Op α → Prop
  | .reserve cap => v.size ≤ cap
  | _ => True

/-- How many cells a call asks for, if it asks for any. -/
def Op.cells (v : Storage α) : Op α → Option Nat
  | .pushBack _ => if v.size = v.capacity then some (v.capacity + 2) else none
  | .insert pos _ => if pos < v.size ∧ v.size = v.capacity then some (v.capacity + 2) else none
  | .reserve cap => some cap
  | .shrinkToFit => some v.size

/-- The allocation of a call fails. -/
def Op.refused (v : Storage α) (heap : Heap) (op : Op α) : Bool :=
  (op.cells v).any fun n => !granted n heap

/-- What a call makes of a list. -/
def Op.apply (refused : Bool) (xs : List α) : Op α → List α
  | .pushBack val => if refused then xs else xs ++ [val]
  | .insert pos val => if refused ∨ xs.length ≤ pos then xs else xs.take pos ++ val :: xs.drop pos
  | .reserve _ | .shrinkToFit => xs

def Op.answer (refused : Bool) (xs : List α) : Op α → Option Bool
  | .insert pos _ => some (!refused && decide (pos < xs.length))
  | .reserve _ => some (!refused)
  | .pushBack _ | .shrinkToFit => none

/-- The vectors that any calls make of an empty one, whatever their allocations
answer, with the list that the same calls make of the empty list. -/
inductive Run : Storage α → List α → Heap → Prop
  | empty (heap : Heap) : Run {} [] heap
  | call {v v' : Storage α} {xs : List α} {heap heap' : Heap} {answer : Option Bool} (op : Op α) :
      Run v xs heap → op.Allowed v → call v heap op = some (answer, v', heap') →
      Run v' (op.apply (op.refused v heap) xs) heap'

/-- What is read from `begin()` to `end()`. -/
def contents (v : Storage α) : Block α := v.data.take v.size

/-- The elements are those of a list, and the capacity is that of the array. -/
structure Represents (v : Storage α) (xs : List α) : Prop where
  contents : contents v = xs.map some
  fits : v.size ≤ v.capacity
  storage : v.data.length = v.capacity
  bounded : v.capacity < 2 ^ 31

/-- What a call has done: to the elements what it does to the list, and to the
capacity and the heap what it asks for. -/
structure Called (v : Storage α) (xs : List α) (heap : Heap) (op : Op α) (v' : Storage α) (heap' : Heap) :
    Prop where
  represents : Represents v' (op.apply (op.refused v heap) xs)
  capacity : v'.capacity = if op.refused v heap then v.capacity else (op.cells v).getD v.capacity
  heap : heap' = if (op.cells v).isSome then heap.alloc.2 else heap

section Represents
variable {v : Storage α} {xs : List α} {heap : Heap} {n k : Nat}

theorem plus_small {a b : Nat} (small : a + b < 2 ^ 32) : plus a b = a + b := Nat.mod_eq_of_lt small

theorem Represents.length (rep : Represents v xs) : v.size = xs.length := by
  have same := congrArg List.length rep.contents
  rw [MyvectorStorage.contents, List.length_take, rep.storage, List.length_map,
    Nat.min_eq_left rep.fits] at same
  exact same

theorem Represents.cell (rep : Represents v xs) (inside : k < v.size) : v.data[k]? = (xs[k]?).map some := by
  have same := congrArg (·[k]?) rep.contents
  rw [MyvectorStorage.contents, List.getElem?_take_of_lt inside, List.getElem?_map] at same
  exact same

theorem represents_of_cells (length : v.size = xs.length) (fits : v.size ≤ v.capacity)
    (storage : v.data.length = v.capacity) (bounded : v.capacity < 2 ^ 31)
    (cells : ∀ k < v.size, v.data[k]? = (xs[k]?).map some) : Represents v xs := by
  refine ⟨?_, fits, storage, bounded⟩
  apply List.ext_getElem?
  intro k
  rw [contents, List.getElem?_map]
  by_cases inside : k < v.size
  · rw [List.getElem?_take_of_lt inside, cells k inside]
  · rw [List.getElem?_take_eq_none (Nat.not_lt.mp inside), List.getElem?_eq_none (by omega)]
    rfl

theorem Represents.filled (rep : Represents v xs) {first : Nat} (inside : first + n ≤ v.size) :
    Filled v.data first n := by
  intro k below
  have within : first + k < xs.length := by
    have length := rep.length
    omega
  refine ⟨xs[first + k], ?_⟩
  rw [rep.cell (by omega), List.getElem?_eq_getElem within]
  rfl

theorem allocV_granted (ok : granted n heap = true) :
    allocV (α := α) n heap = (some (List.replicate n none), heap.alloc.2) := by
  rw [allocV, if_pos ok]

theorem allocV_refused (refused : granted n heap = false) : allocV (α := α) n heap = (none, heap.alloc.2) := by
  rw [allocV, if_neg (by rw [refused]; exact Bool.false_ne_true)]

theorem granted_lt (ok : granted n heap = true) : n < 2 ^ 31 := by
  rw [granted, Bool.and_eq_true, decide_eq_true_eq] at ok
  exact ok.2

/-- All elements are copied to the front of a new array. -/
theorem Represents.copied (rep : Represents v xs) (room : v.size ≤ n) :
    ∃ ptr, copy v.data v.size 0 0 (List.replicate n none) = some ptr ∧ ptr.length = n ∧
      ∀ k < v.size, ptr[k]? = (xs[k]?).map some := by
  have filled : Filled v.data 0 v.size := rep.filled (Nat.le_of_eq (Nat.zero_add _))
  have fits : 0 + v.size ≤ (List.replicate n none : Block α).length := by
    rw [List.length_replicate]
    omega
  obtain ⟨ptr, ran, long, cells⟩ := copy_spec filled fits
  rw [List.length_replicate] at long
  refine ⟨ptr, ran, long, fun k inside => ?_⟩
  rw [cells, if_pos (by omega), Nat.zero_add, Nat.sub_zero, rep.cell inside]

/-- An element is written behind the last one. -/
theorem represents_pushed {data : Block α} {capacity : Nat} (val : α) (length : v.size = xs.length)
    (room : v.size < capacity) (storage : data.length = capacity) (bounded : capacity < 2 ^ 31)
    (cells : ∀ k < v.size, data[k]? = (xs[k]?).map some) :
    Represents ⟨data.set v.size (some val), capacity, plus v.size 1⟩ (xs ++ [val]) := by
  have next : plus v.size 1 = v.size + 1 := plus_small (by omega)
  refine represents_of_cells ?_ ?_ ?_ bounded fun k inside => ?_
  · rw [next, length, List.length_append, List.length_singleton]
  · rw [next]
    exact room
  · rw [List.length_set, storage]
  · dsimp only at inside ⊢
    rw [next] at inside
    by_cases last : k = v.size
    · subst last
      rw [List.getElem?_set_self (by omega), length, List.getElem?_concat_length]
      rfl
    · rw [List.getElem?_set_ne (Ne.symm last), cells k (by omega), List.getElem?_append_left (by omega)]

/-- A call whose allocation fails changes nothing. -/
theorem called_refused (rep : Represents v xs) {op : Op α} (asks : op.cells v = some n)
    (refused : granted n heap = false) : Called v xs heap op v heap.alloc.2 := by
  have failed : op.refused v heap = true := by simp only [Op.refused, asks, Option.any_some, refused, Bool.not_false]
  have unchanged : op.apply true xs = xs := by cases op <;> simp [Op.apply]
  refine ⟨?_, ?_, ?_⟩
  · rw [failed, unchanged]
    exact rep
  · rw [failed, if_pos rfl]
  · rw [asks, Option.isSome_some, if_pos rfl]

theorem called_granted {op : Op α} {v' : Storage α} (asks : op.cells v = some n) (ok : granted n heap = true)
    (represents : Represents v' (op.apply false xs)) (capacity : v'.capacity = n) :
    Called v xs heap op v' heap.alloc.2 := by
  have succeeds : op.refused v heap = false := by simp only [Op.refused, asks, Option.any_some, ok, Bool.not_true]
  refine ⟨?_, ?_, ?_⟩
  · rw [succeeds]
    exact represents
  · rw [succeeds, if_neg Bool.false_ne_true, asks, Option.getD_some, capacity]
  · rw [asks, Option.isSome_some, if_pos rfl]

theorem called_within {op : Op α} {v' : Storage α} (asks : op.cells v = none)
    (represents : Represents v' (op.apply false xs)) (capacity : v'.capacity = v.capacity) :
    Called v xs heap op v' heap := by
  have succeeds : op.refused v heap = false := by simp only [Op.refused, asks, Option.any_none]
  refine ⟨?_, ?_, ?_⟩
  · rw [succeeds]
    exact represents
  · rw [succeeds, if_neg Bool.false_ne_true, asks, Option.getD_none, capacity]
  · rw [asks, Option.isSome_none, if_neg Bool.false_ne_true]

theorem pushBack_spec (rep : Represents v xs) (val : α) (heap : Heap) :
    ∃ v' heap', pushBack v val heap = some (v', heap') ∧ Called v xs heap (.pushBack val) v' heap' := by
  have length := rep.length
  have fits := rep.fits
  have bounded := rep.bounded
  have next : plus v.size 1 = v.size + 1 := plus_small (by omega)
  have grown : plus v.capacity Myvector.capacityResize = v.capacity + 2 :=
    plus_small (by simp only [Myvector.capacityResize]; omega)
  unfold pushBack
  by_cases full : v.size = v.capacity
  · have asks : (Op.pushBack val).cells v = some (v.capacity + 2) := if_pos full
    rw [if_pos (by omega), grown]
    cases ok : granted (v.capacity + 2) heap with
    | false =>
      rw [allocV_refused ok]
      exact ⟨v, _, rfl, called_refused rep asks ok⟩
    | true =>
      have room : v.size ≤ v.capacity + 2 := by omega
      obtain ⟨ptr, copied, long, cells⟩ := rep.copied room
      have pushed := represents_pushed val length (by omega) long (granted_lt ok) cells
      rw [allocV_granted ok]
      dsimp only
      rw [copied, Option.bind_eq_bind, Option.bind_some, write_inside (by omega)]
      exact ⟨_, _, rfl, called_granted asks ok pushed rfl⟩
  · have asks : (Op.pushBack val).cells v = none := if_neg full
    have inside : v.size < v.data.length := by
      rw [rep.storage]
      omega
    have pushed := represents_pushed val length (by omega) rep.storage bounded
      fun k inside => rep.cell inside
    rw [if_neg (by omega), write_inside inside]
    exact ⟨_, _, rfl, called_within asks pushed rfl⟩

/-- The elements as they are after an insertion. -/
theorem getElem?_inserted {pos : Nat} {val : α} (inside : pos < xs.length) (k : Nat) :
    (xs.take pos ++ val :: xs.drop pos)[k]? =
      if k < pos then xs[k]? else if k = pos then some val else xs[k - 1]? := by
  have front : (xs.take pos).length = pos := by rw [List.length_take, Nat.min_eq_left (Nat.le_of_lt inside)]
  by_cases before : k < pos
  · rw [if_pos before, List.getElem?_append_left (by omega), List.getElem?_take_of_lt before]
  · rw [if_neg before, List.getElem?_append_right (by omega), front]
    by_cases here : k = pos
    · rw [if_pos here, here, Nat.sub_self]
      rfl
    · rw [if_neg here, show k - pos = k - 1 - pos + 1 by omega, List.getElem?_cons_succ, List.getElem?_drop,
        show pos + (k - 1 - pos) = k - 1 by omega]

/-- Both branches of `insert` come to an array with these cells. -/
theorem represents_inserted {data : Block α} {capacity pos : Nat} {val : α} (length : v.size = xs.length)
    (inside : pos < v.size) (room : v.size < capacity) (storage : data.length = capacity)
    (bounded : capacity < 2 ^ 31) (front : ∀ k < pos, data[k]? = (xs[k]?).map some)
    (here : data[pos]? = some (some val))
    (behind : ∀ k, pos < k → k < v.size + 1 → data[k]? = (xs[k - 1]?).map some) :
    Represents ⟨data, capacity, plus v.size 1⟩ (xs.take pos ++ val :: xs.drop pos) := by
  have next : plus v.size 1 = v.size + 1 := plus_small (by omega)
  refine represents_of_cells ?_ ?_ storage bounded fun k below => ?_
  · simp only [next, List.length_append, List.length_take, List.length_cons, List.length_drop]
    omega
  · rw [next]
    exact room
  · dsimp only at below ⊢
    rw [next] at below
    rw [getElem?_inserted (length ▸ inside)]
    by_cases before : k < pos
    · rw [if_pos before, front k before]
    · rw [if_neg before]
      by_cases at_pos : k = pos
      · rw [if_pos at_pos, at_pos, here]
        rfl
      · rw [if_neg at_pos, behind k (by omega) below]

/-- The branch of `insert` that moves to a new array. -/
theorem Represents.reallocated (rep : Represents v xs) {pos : Nat} (inside : pos < v.size)
    (room : v.size < n) (bounded : n < 2 ^ 31) (val : α) :
    ∃ front written data, copy v.data pos 0 0 (List.replicate n none) = some front ∧
      front.write pos val = some written ∧ copy v.data (v.size - pos) pos (pos + 1) written = some data ∧
      Represents ⟨data, n, plus v.size 1⟩ (xs.take pos ++ val :: xs.drop pos) := by
  have filled : Filled v.data 0 pos := rep.filled (by omega)
  have fits : 0 + pos ≤ (List.replicate n none : Block α).length := by
    rw [List.length_replicate]
    omega
  obtain ⟨front, ran, long, cells⟩ := copy_spec filled fits
  rw [List.length_replicate] at long
  have rest : Filled v.data pos (v.size - pos) := rep.filled (by omega)
  have left : pos + 1 + (v.size - pos) ≤ (front.set pos (some val)).length := by
    rw [List.length_set]
    omega
  obtain ⟨data, ran', long', cells'⟩ := copy_spec rest left
  rw [List.length_set, long] at long'
  refine ⟨front, _, data, ran, write_inside (by omega) val, ran',
    represents_inserted rep.length inside room long' bounded ?_ ?_ ?_⟩
  · intro k before
    rw [cells', if_neg (by omega), List.getElem?_set_ne (by omega), cells, if_pos (by omega), Nat.zero_add,
      Nat.sub_zero, rep.cell (by omega)]
  · rw [cells', if_neg (by omega), List.getElem?_set_self (by omega)]
  · intro k after below
    rw [cells', if_pos (by omega), show pos + (k - (pos + 1)) = k - 1 by omega, rep.cell (by omega)]

/-- The branch of `insert` that moves within the array. -/
theorem Represents.shifted (rep : Represents v xs) {pos : Nat} (inside : pos < v.size)
    (room : v.size < v.capacity) (val : α) :
    ∃ moved data, copyBackward (v.size - pos) v.size (v.size + 1) v.data = some moved ∧
      moved.write pos val = some data ∧
      Represents ⟨data, v.capacity, plus v.size 1⟩ (xs.take pos ++ val :: xs.drop pos) := by
  have storage := rep.storage
  have filled : Filled v.data (v.size - (v.size - pos)) (v.size - pos) := rep.filled (by omega)
  obtain ⟨moved, ran, long, cells⟩ := copyBackward_spec filled (Nat.sub_le ..) (Nat.le_succ v.size) (by omega)
  refine ⟨moved, _, ran, write_inside (by omega) val,
    represents_inserted rep.length inside room ?_ rep.bounded ?_ ?_ ?_⟩
  · rw [List.length_set, long, storage]
  · intro k before
    rw [List.getElem?_set_ne (by omega), cells, if_neg (by omega), rep.cell (by omega)]
  · rw [List.getElem?_set_self (by omega)]
  · intro k after below
    rw [List.getElem?_set_ne (by omega), cells, if_pos (by omega), show k - (v.size + 1 - v.size) = k - 1 by omega,
      rep.cell (by omega)]

theorem insert_spec (rep : Represents v xs) (pos : Nat) (val : α) (heap : Heap) :
    ∃ v' heap', insert v pos val heap =
        some (!(Op.insert pos val).refused v heap && decide (pos < xs.length), v', heap') ∧
      Called v xs heap (.insert pos val) v' heap' := by
  have length := rep.length
  have fits := rep.fits
  have bounded := rep.bounded
  have next : plus v.size 1 = v.size + 1 := plus_small (by omega)
  have grown : plus v.capacity Myvector.capacityResize = v.capacity + 2 :=
    plus_small (by simp only [Myvector.capacityResize]; omega)
  unfold insert
  by_cases outside : pos ≥ v.size
  · have asks : (Op.insert pos val).cells v = none := if_neg fun both => absurd both.1 (Nat.not_lt.mpr outside)
    have unchanged : (Op.insert pos val).apply false xs = xs := if_pos (.inr (length ▸ outside))
    rw [if_pos outside, decide_eq_false (by omega), Bool.and_false]
    exact ⟨v, heap, rfl, called_within asks (unchanged.symm ▸ rep) rfl⟩
  have inside : pos < v.size := Nat.lt_of_not_le outside
  have inserted : (Op.insert pos val).apply false xs = xs.take pos ++ val :: xs.drop pos :=
    if_neg (by simp only [Bool.false_eq_true, false_or]; omega)
  rw [if_neg outside, decide_eq_true (length ▸ inside), Bool.and_true]
  by_cases full : v.size = v.capacity
  · have asks : (Op.insert pos val).cells v = some (v.capacity + 2) := if_pos ⟨inside, full⟩
    have refused : (Op.insert pos val).refused v heap = !granted (v.capacity + 2) heap := by
      simp only [Op.refused, asks, Option.any_some]
    rw [if_pos (by omega), grown, refused]
    cases ok : granted (v.capacity + 2) heap with
    | false =>
      rw [allocV_refused ok]
      exact ⟨v, _, rfl, called_refused rep asks ok⟩
    | true =>
      have room : v.size < v.capacity + 2 := by omega
      obtain ⟨front, written, data, first, second, third, after⟩ :=
        rep.reallocated inside room (granted_lt ok) val
      rw [allocV_granted ok]
      dsimp only
      rw [first, Option.bind_eq_bind, Option.bind_some, second, Option.bind_some, third]
      exact ⟨_, _, rfl, called_granted asks ok (inserted.symm ▸ after) rfl⟩
  · have asks : (Op.insert pos val).cells v = none := if_neg fun both => full both.2
    have refused : (Op.insert pos val).refused v heap = false := by simp only [Op.refused, asks, Option.any_none]
    obtain ⟨moved, data, first, second, after⟩ := rep.shifted inside (by omega) val
    rw [if_neg (by omega), first, Option.bind_eq_bind, Option.bind_some, second, refused]
    exact ⟨_, _, rfl, called_within asks (inserted.symm ▸ after) rfl⟩

/-- The elements are in a new array of their own. -/
theorem represents_moved {ptr : Block α} (length : v.size = xs.length) (room : v.size ≤ n)
    (long : ptr.length = n) (bounded : n < 2 ^ 31) (cells : ∀ k < v.size, ptr[k]? = (xs[k]?).map some) :
    Represents ⟨ptr, n, v.size⟩ xs :=
  represents_of_cells length room long bounded cells

theorem reserve_spec (rep : Represents v xs) {cap : Nat} (allowed : v.size ≤ cap) (heap : Heap) :
    ∃ v' heap', reserve v cap heap = some (!(Op.reserve cap).refused v heap, v', heap') ∧
      Called v xs heap (.reserve cap) v' heap' := by
  have refused : (Op.reserve cap).refused v heap = !granted cap heap := by
    simp only [Op.refused, Op.cells, Option.any_some]
  unfold reserve
  rw [refused, Bool.not_not]
  cases ok : granted cap heap with
  | false =>
    rw [allocV_refused ok]
    exact ⟨v, _, rfl, called_refused rep rfl ok⟩
  | true =>
    obtain ⟨ptr, copied, long, cells⟩ := rep.copied allowed
    have after : Represents { v with data := ptr, capacity := cap } xs :=
      represents_moved rep.length allowed long (granted_lt ok) cells
    rw [allocV_granted ok]
    dsimp only
    split
    · rw [copied, Option.bind_eq_bind, Option.bind_some]
      exact ⟨_, _, rfl, called_granted rfl ok after rfl⟩
    · rename_i empty
      rw [show v.size = 0 by omega] at copied
      cases copied
      exact ⟨_, _, rfl, called_granted rfl ok after rfl⟩

theorem shrinkToFit_spec (rep : Represents v xs) (heap : Heap) :
    ∃ v' heap', shrinkToFit v heap = some (v', heap') ∧ Called v xs heap .shrinkToFit v' heap' := by
  unfold shrinkToFit
  cases ok : granted v.size heap with
  | false =>
    rw [allocV_refused ok]
    exact ⟨v, _, rfl, called_refused rep rfl ok⟩
  | true =>
    obtain ⟨ptr, copied, long, cells⟩ := rep.copied (Nat.le_refl v.size)
    have after : Represents { v with data := ptr, capacity := v.size } xs :=
      represents_moved rep.length (Nat.le_refl _) long (granted_lt ok) cells
    rw [allocV_granted ok]
    dsimp only
    rw [copied, Option.bind_eq_bind, Option.bind_some]
    exact ⟨_, _, rfl, called_granted rfl ok after rfl⟩

/-- Every call completes: it accesses no cell outside of the array. -/
theorem call_spec (rep : Represents v xs) (op : Op α) (allowed : op.Allowed v) (heap : Heap) :
    ∃ v' heap', call v heap op = some (op.answer (op.refused v heap) xs, v', heap') ∧
      Called v xs heap op v' heap' := by
  cases op with
  | pushBack val =>
    obtain ⟨v', heap', ran, after⟩ := pushBack_spec rep val heap
    exact ⟨v', heap', by rw [call, ran]; rfl, after⟩
  | insert pos val =>
    obtain ⟨v', heap', ran, after⟩ := insert_spec rep pos val heap
    exact ⟨v', heap', by rw [call, ran]; rfl, after⟩
  | reserve cap =>
    obtain ⟨v', heap', ran, after⟩ := reserve_spec rep allowed heap
    exact ⟨v', heap', by rw [call, ran]; rfl, after⟩
  | shrinkToFit =>
    obtain ⟨v', heap', ran, after⟩ := shrinkToFit_spec rep heap
    exact ⟨v', heap', by rw [call, ran]; rfl, after⟩

theorem run_represents (run : Run v xs heap) : Represents v xs := by
  induction run with
  | empty => exact ⟨rfl, Nat.le_refl 0, rfl, Nat.two_pow_pos 31⟩
  | call op _ allowed ran rep =>
    obtain ⟨v', heap', ran', called⟩ := call_spec rep op allowed _
    rw [ran] at ran'
    cases ran'
    exact called.represents

/-- What `insert` answers, and the elements after it. -/
def inserted (v : Storage α) (pos : Nat) (val : α) (heap : Heap) : Option (Bool × Block α) :=
  (insert v pos val heap).map fun result => (result.1, contents result.2.1)

theorem inserted_eq (rep : Represents v xs) (pos : Nat) (val : α) (heap : Heap) :
    inserted v pos val heap = some (!(Op.insert pos val).refused v heap && decide (pos < xs.length),
      ((Op.insert pos val).apply ((Op.insert pos val).refused v heap) xs).map some) := by
  obtain ⟨v', heap', ran, called⟩ := insert_spec rep pos val heap
  rw [inserted, ran, Option.map_some, called.represents.contents]

/-- In every run the vector has the elements of the list, within its capacity, and
every further call completes with the answer that is due. Two vectors with the
same elements come to the same ones by an insertion, in place or not. -/
theorem behaves_as_list (run : Run v xs heap) :
    Represents v xs ∧
      (∀ op : Op α, op.Allowed v → ∃ v' heap',
        call v heap op = some (op.answer (op.refused v heap) xs, v', heap') ∧
          Run v' (op.apply (op.refused v heap) xs) heap') ∧
      ∀ (v₂ : Storage α) heap₂, Run v₂ xs heap₂ → ∀ pos val,
        (Op.insert pos val).refused v heap = (Op.insert pos val).refused v₂ heap₂ →
          inserted v pos val heap = inserted v₂ pos val heap₂ := by
  have rep := run_represents run
  refine ⟨rep, fun op allowed => ?_, fun v₂ heap₂ run₂ pos val same => ?_⟩
  · obtain ⟨v', heap', ran, -⟩ := call_spec rep op allowed heap
    exact ⟨v', heap', ran, .call op run allowed ran⟩
  · rw [inserted_eq rep, inserted_eq (run_represents run₂), same]

end Represents

/-- After a `push_back` and an `insert` in place, a `push_back` that is refused. -/
theorem refused_push_back : Represents (⟨[some 7, some 1], 2, 2⟩ : Storage UInt8) [7, 1] ∧
    call (⟨[some 7, some 1], 2, 2⟩ : Storage UInt8) [false] (.pushBack 9) =
      some (none, ⟨[some 7, some 1], 2, 2⟩, []) := by
  have run : Run (⟨[some 7, some 1], 2, 2⟩ : Storage UInt8) [7, 1] [false] :=
    .call (.insert 0 7) (.call (.pushBack 1) (.empty [true, false]) trivial rfl) trivial rfl
  exact ⟨(behaves_as_list run).1, rfl⟩

end MqttBroker.MyvectorStorage
