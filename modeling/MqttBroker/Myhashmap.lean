import MqttBroker.Logic.Arrays
import MqttBroker.Logic.Program
import MqttBroker.Myvector

/-! `myhashmap`, the chained hash table of sessions, subscriptions, retained
messages and users. A bucket is its chain from head to tail. -/
namespace MqttBroker

/-- What undefined behaviour or an endless loop of the source is here: the
operation has no result. -/
inductive Fault
  | nullDeref
  | outOfBounds
  | divideByZero
  | endless
  deriving DecidableEq, Repr

abbrev Outcome := Except Fault

abbrev Key := List UInt8

/-- `myhashmap<T>::Node`; `next` is the rest of the chain. -/
structure Node (α : Type) where
  key : Key
  data : α

/-- The buckets are the storage of the vector `map`, `map.capacity` of them;
`size` is `map.size`. -/
structure Myhashmap (α : Type) where
  buckets : List (List (Node α)) := []
  size : Nat := 0
  count : Nat := 0

namespace Myhashmap

def rehashSizeTimes : Nat := 4

def capacity (m : Myhashmap α) : Nat := m.buckets.length

/-- The nodes in the order in which an iterator visits them. -/
def nodes (m : Myhashmap α) : List (Node α) := m.buckets.flatten

/-- `myhashmap(reserve_capacity)`; a failed reservation leaves no bucket. -/
def ofCapacity (reserveCapacity : Nat) (heap : Heap) : Myhashmap α × Heap :=
  if heap.alloc.1 then ({ buckets := List.replicate reserveCapacity [] }, heap.alloc.2)
  else ({}, heap.alloc.2)

def fnv1aHash (key : Key) : UInt32 :=
  let maxIter := if key.length < 4 then 1 else 2
  (List.range maxIter).foldl (fun hash i =>
    let hash := (hash ^^^ (key.getD i 0).toUInt32) * 16777619
    (hash ^^^ (key.getD (key.length - (i + 1)) 0).toUInt32) * 16777619) 2166136261

/-- The bucket of a key among `capacity` buckets. -/
def bucketOf (capacity : Nat) (key : Key) : Nat :=
  if key.length > 0 then (fnv1aHash key).toNat % capacity else 0

/-- `id`, before the bucket is looked at. -/
def index (m : Myhashmap α) (key : Key) : Outcome Nat :=
  if key.length > 0 ∧ m.capacity = 0 then .error .divideByZero else .ok (bucketOf m.capacity key)

/-- `map[id]` -/
def chain (m : Myhashmap α) (id : Nat) : Outcome (List (Node α)) :=
  match m.buckets[id]? with
  | some chain => .ok chain
  | none => .error .outOfBounds

/-- The walk along a chain to the first node with the key. -/
def find (key : Key) (chain : List (Node α)) : Option (Node α) := chain.find? (·.key = key)

def get (m : Myhashmap α) (key : Key) : Outcome (Option α) := do
  let id ← m.index key
  let chain ← m.chain id
  .ok ((find key chain).map Node.data)

/-- Where `rehash` moves a node: to the tail of the bucket of its new hash. The
hash of an empty key reads outside the key. -/
def moveNode (newSize : Nat) (buckets : List (List (Node α))) (node : Node α) :
    Outcome (List (List (Node α))) :=
  if node.key.length = 0 then .error .outOfBounds
  else if newSize = 0 then .error .divideByZero
  else .ok (buckets.modify ((fnv1aHash node.key).toNat % newSize) (· ++ [node]))

/-- `rehash`. The nodes of a chain are moved from its tail. The loop over the
old buckets runs to `tmpmap.size`, not to the capacity. -/
def rehash (m : Myhashmap α) (newSize : Nat) (heap : Heap) : Outcome (Myhashmap α × Heap) :=
  if heap.alloc.1 then do
    let buckets ← ((List.range m.size).flatMap fun id => (m.buckets.getD id []).reverse).foldlM
      (moveNode newSize) (List.replicate newSize [])
    .ok ({ m with buckets := buckets, size := 0 }, heap.alloc.2)
  else .ok (m, heap.alloc.2)

def add (m : Myhashmap α) (key : Key) (data : α) (heap : Heap) :
    Outcome (Bool × Myhashmap α × Heap) := do
  let id ← m.index key
  if heap.alloc.1 then
    let newKey := Myvector.ofRange key heap.alloc.2
    if newKey.1.size ≠ key.length then .ok (false, m, newKey.2)
    else
      let chain ← m.chain id
      let added := { m with
        buckets := m.buckets.set id (chain ++ [⟨newKey.1.elems, data⟩]), count := m.count + 1 }
      if chain ≠ [] ∧ added.count > m.capacity * rehashSizeTimes then
        let grown ← added.rehash (added.count / 2) newKey.2
        .ok (true, grown)
      else .ok (true, added, newKey.2)
  else .ok (false, m, heap.alloc.2)

/-- The chain with the data of its first node for the key replaced. -/
def setFirst (key : Key) (data : α) : List (Node α) → List (Node α)
  | [] => []
  | node :: rest => if node.key = key then ⟨node.key, data⟩ :: rest else node :: setFirst key data rest

def update (m : Myhashmap α) (key : Key) (data : α) : Outcome (Bool × Myhashmap α) := do
  let id ← m.index key
  let chain ← m.chain id
  if (find key chain).isSome then
    .ok (true, { m with buckets := m.buckets.set id (setFirst key data chain) })
  else .ok (false, m)

/-- The chain without its first node for the key, if there is one. -/
def unlink (key : Key) : List (Node α) → Option (List (Node α))
  | [] => none
  | node :: rest => if node.key = key then some rest else (unlink key rest).map (node :: ·)

/-- The head of the chain is read before it is known to exist. -/
def erase (m : Myhashmap α) (key : Key) : Outcome (Myhashmap α) := do
  let id ← m.index key
  let chain ← m.chain id
  if chain = [] then .error .nullDeref
  else
    match unlink key chain with
    | some rest => .ok { m with buckets := m.buckets.set id rest, count := m.count - 1 }
    | none => .ok m

/-! ### Lookups after each operation -/

section Laws
variable {m : Myhashmap α} {key other : Key} {data : α}

theorem bucketOf_lt {capacity : Nat} (buckets : 0 < capacity) (key : Key) :
    bucketOf capacity key < capacity := by
  unfold bucketOf
  split
  · exact Nat.mod_lt _ buckets
  · exact buckets

/-- The chain in which a key is looked for. -/
def bucket (m : Myhashmap α) (key : Key) : List (Node α) :=
  m.buckets.getD (bucketOf m.capacity key) []

theorem index_eq (buckets : 0 < m.capacity) (key : Key) :
    m.index key = .ok (bucketOf m.capacity key) := by
  rw [index, if_neg (fun both => by omega)]

theorem chain_eq (buckets : 0 < m.capacity) (key : Key) :
    m.chain (bucketOf m.capacity key) = .ok (m.bucket key) := by
  have inside : bucketOf m.capacity key < m.buckets.length := bucketOf_lt buckets key
  simp [chain, bucket, List.getElem?_eq_getElem inside]

theorem get_eq (buckets : 0 < m.capacity) (key : Key) :
    m.get key = .ok ((find key (m.bucket key)).map Node.data) := by
  simp [get, index_eq buckets, chain_eq buckets, bind, Except.bind]

theorem find_append (chain : List (Node α)) (node : Node α) :
    find key (chain ++ [node]) =
      (find key chain).or (if node.key = key then some node else none) := by
  by_cases same : node.key = key <;> simp [find, List.find?_append, same]

theorem find_setFirst (chain : List (Node α)) :
    find other (setFirst key data chain) =
      if other = key then (find key chain).map fun node => ⟨node.key, data⟩ else find other chain := by
  induction chain with
  | nil => simp [setFirst, find]
  | cons node rest ih =>
    by_cases here : node.key = key
    · by_cases same : other = key
      · subst same
        simp [setFirst, find, here]
      · have different : ¬ key = other := fun eq => same eq.symm
        simp [setFirst, find, here, same, different]
    · by_cases same : other = key
      · subst same
        simpa [setFirst, find, here] using ih
      · simp only [find, same, if_false, setFirst, here, List.find?_cons] at ih ⊢
        rw [ih]

theorem length_setFirst (chain : List (Node α)) :
    (setFirst key data chain).length = chain.length := by
  induction chain with
  | nil => rfl
  | cons node rest ih =>
    unfold setFirst
    split
    · rfl
    · simp [ih]

/-- Writing one bucket changes what is found in that bucket only. -/
theorem bucket_set (buckets : 0 < m.capacity) (key other : Key) (chain : List (Node α)) (n : Nat) :
    bucket { m with buckets := m.buckets.set (bucketOf m.capacity key) chain, count := n } other =
      if bucketOf m.capacity other = bucketOf m.capacity key then chain else m.bucket other := by
  have inside : bucketOf m.capacity key < m.buckets.length := bucketOf_lt buckets key
  simp only [bucket, capacity, List.length_set, List.getD_eq_getElem?_getD]
  by_cases same : bucketOf m.buckets.length other = bucketOf m.buckets.length key
  · rw [same, if_pos rfl, List.getElem?_set_self (by simpa [capacity] using inside)]
    rfl
  · rw [if_neg same, List.getElem?_set_ne (Ne.symm same)]

/-- The nodes after one bucket has been rewritten. -/
theorem nodes_set (buckets : 0 < m.capacity) (key : Key) (chain : List (Node α)) :
    ((m.buckets.set (bucketOf m.capacity key) chain).flatten : Multiset (Node α)) + m.bucket key =
      (m.nodes : Multiset (Node α)) + (chain : Multiset (Node α)) := by
  have inside : bucketOf m.capacity key < m.buckets.length := bucketOf_lt buckets key
  have held : m.bucket key = m.buckets[bucketOf m.capacity key] := by
    simp [bucket, List.getElem?_eq_getElem inside]
  rw [held]
  exact Logic.flatten_set m.buckets _ inside chain

/-- The map with the first node for the key holding `data`. -/
def rewritten (m : Myhashmap α) (key : Key) (data : α) : Myhashmap α :=
  { m with
    buckets := m.buckets.set (bucketOf m.capacity key) (setFirst key data (m.bucket key)) }

@[simp] theorem rewritten_capacity : (m.rewritten key data).capacity = m.capacity :=
  List.length_set

theorem update_eq (buckets : 0 < m.capacity) (key : Key) (data : α) :
    m.update key data = .ok (if (find key (m.bucket key)).isSome then (true, m.rewritten key data)
      else (false, m)) := by
  cases present : (find key (m.bucket key)).isSome <;>
    simp [update, index_eq buckets, chain_eq buckets, bind, Except.bind, present, rewritten]

theorem find_rewritten (buckets : 0 < m.capacity) :
    find other ((m.rewritten key data).bucket other) =
      if other = key then (find key (m.bucket key)).map fun node => ⟨node.key, data⟩
      else find other (m.bucket other) := by
  rw [rewritten, bucket_set buckets key other _ m.count]
  by_cases same : other = key
  · subst same
    rw [if_pos rfl, find_setFirst, if_pos rfl]
  · rw [if_neg same]
    split
    · rename_i shared
      rw [find_setFirst, if_neg same, bucket, bucket, shared]
    · rfl

theorem get_rewritten (buckets : 0 < m.capacity) {old : α} (held : m.get key = .ok (some old)) :
    (m.rewritten key data).get other = if other = key then .ok (some data) else m.get other := by
  rw [get_eq (by rw [rewritten_capacity]; exact buckets), find_rewritten buckets]
  by_cases same : other = key
  · rw [get_eq buckets, Except.ok.injEq, Option.map_eq_some_iff] at held
    obtain ⟨node, found, -⟩ := held
    rw [if_pos same, if_pos same, found]
    rfl
  · rw [if_neg same, if_neg same, get_eq buckets]

theorem length_nodes_rewritten (buckets : 0 < m.capacity) :
    (m.rewritten key data).nodes.length = m.nodes.length := by
  have sized := congrArg Multiset.card (nodes_set buckets key (setFirst key data (m.bucket key)))
  simp only [Multiset.card_add, Multiset.coe_card, length_setFirst] at sized
  exact Nat.add_right_cancel sized

/-! ### Insertion and growth -/

/-- The map with one node more, at the tail of its chain. -/
def appended (m : Myhashmap α) (key : Key) (data : α) : Myhashmap α :=
  { m with
    buckets := m.buckets.set (bucketOf m.capacity key) (m.bucket key ++ [⟨key, data⟩])
    count := m.count + 1 }

/-- What growth leaves behind: new buckets and the old counter, but no node. -/
def emptied (m : Myhashmap α) : Myhashmap α :=
  { buckets := List.replicate ((m.count + 1) / 2) [], size := 0, count := m.count + 1 }

/-- Adding this key grows the map: its chain is not empty and the new count is
past the load limit. -/
def Crowded (m : Myhashmap α) (key : Key) : Prop :=
  m.bucket key ≠ [] ∧ m.count + 1 > m.capacity * rehashSizeTimes

@[simp] theorem appended_size : (m.appended key data).size = m.size := rfl

@[simp] theorem appended_count : (m.appended key data).count = m.count + 1 := rfl

@[simp] theorem appended_capacity : (m.appended key data).capacity = m.capacity :=
  List.length_set

theorem of_range_size (range : List β) (heap : Heap)
    (whole : (Myvector.ofRange range heap).1.size = range.length) :
    (Myvector.ofRange range heap).1.elems = range := by
  unfold Myvector.ofRange Myvector.size at *
  split at whole
  · rw [if_pos ‹_›]
    exact (List.eq_nil_of_length_eq_zero ‹_›).symm
  · rename_i nonempty
    rw [if_neg nonempty]
    split at whole
    · rw [if_pos ‹_›]
    · exact absurd whole.symm nonempty

/-- The vector of buckets only ever has storage reserved, so its size is zero
and growth moves no node over. -/
theorem rehash_empties (unsized : m.size = 0) (newSize : Nat) (heap : Heap) :
    m.rehash newSize heap = .ok (if heap.alloc.1 then
      ({ m with buckets := List.replicate newSize [], size := 0 }, heap.alloc.2)
      else (m, heap.alloc.2)) := by
  cases ok : heap.alloc.1 <;>
    simp [rehash, ok, unsized, bind, Except.bind, pure, Except.pure]

/-- Every way `add` can end on a map with buckets. -/
inductive AddEnds (m : Myhashmap α) (key : Key) (data : α) : Bool × Myhashmap α × Heap → Prop
  | refused (heap : Heap) : AddEnds m key data (false, m, heap)
  | appended (heap : Heap) : AddEnds m key data (true, m.appended key data, heap)
  | emptied (heap : Heap) : m.Crowded key → AddEnds m key data (true, m.emptied, heap)

theorem add_ends (buckets : 0 < m.capacity) (unsized : m.size = 0) (key : Key) (data : α)
    (heap : Heap) :
    ∃ result, m.add key data heap = .ok result ∧ AddEnds m key data result := by
  simp only [add, index_eq buckets, chain_eq buckets, bind, Except.bind]
  cases node : heap.alloc.1 with
  | false => exact ⟨_, rfl, .refused _⟩
  | true =>
    simp only [if_true]
    by_cases copied : (Myvector.ofRange key heap.alloc.2).1.size = key.length
    · rw [if_neg (not_not.mpr copied), of_range_size key _ copied]
      split
      · rename_i crowded
        rw [rehash_empties (by exact unsized)]
        cases room : (Myvector.ofRange key heap.alloc.2).2.alloc.1 with
        | true => exact ⟨_, rfl, .emptied _ crowded⟩
        | false => exact ⟨_, rfl, .appended _⟩
      · exact ⟨_, rfl, .appended _⟩
    · rw [if_pos copied]
      exact ⟨_, rfl, .refused _⟩

/-- An addition that fails changes nothing. -/
theorem add_refused {m' : Myhashmap α} {heap after : Heap}
    (added : m.add key data heap = .ok (false, m', after)) : m' = m := by
  simp only [add, bind, Except.bind] at added
  repeat' split at added
  all_goals first | cases added; rfl | cases added

/-- With allocations succeeding `add` appends, unless the map is crowded. -/
theorem add_roomy (buckets : 0 < m.capacity) (roomy : ¬ m.Crowded key) :
    m.add key data [] = .ok (true, m.appended key data, []) := by
  have stays : ¬ (m.bucket key ≠ [] ∧ m.count + 1 > m.capacity * rehashSizeTimes) := roomy
  simp only [add, index_eq buckets, chain_eq buckets, bind, Except.bind, Myvector.size,
    Heap.alloc_nil, Myvector.ofRange_nil_heap, Myvector.ofRange_heap_nil, if_true, ne_eq,
    not_true_eq_false, if_false]
  exact if_neg stays

/-- With allocations succeeding the addition that crowds the map loses every
node, the new one included. -/
theorem add_crowded (buckets : 0 < m.capacity) (unsized : m.size = 0) (crowded : m.Crowded key) :
    m.add key data [] = .ok (true, m.emptied, []) := by
  have grows : m.bucket key ≠ [] ∧ m.count + 1 > m.capacity * rehashSizeTimes := crowded
  simp [add, index_eq buckets, chain_eq buckets, bind, Except.bind, Myvector.size, grows, emptied,
    rehash_empties, unsized]

/-- A crowded map has at least five nodes, so growth leaves it some bucket. -/
theorem emptied_capacity (buckets : 0 < m.capacity) (crowded : m.Crowded key) :
    0 < m.emptied.capacity := by
  have load := crowded.2
  simp only [rehashSizeTimes] at load
  simp only [emptied, capacity, List.length_replicate]
  simp only [capacity] at load buckets
  omega

theorem emptied_get (buckets : 0 < m.capacity) (crowded : m.Crowded key) (other : Key) :
    m.emptied.get other = .ok none := by
  rw [get_eq (emptied_capacity buckets crowded)]
  have nothing : m.emptied.bucket other = [] := by
    simp only [bucket, emptied, List.getD_eq_getElem?_getD, List.getElem?_replicate]
    split <;> rfl
  rw [nothing]
  rfl

theorem find_appended (buckets : 0 < m.capacity) :
    find other ((m.appended key data).bucket other) =
      (find other (m.bucket other)).or (if other = key then some ⟨key, data⟩ else none) := by
  have changed := bucket_set buckets key other (m.bucket key ++ [⟨key, data⟩]) (m.count + 1)
  rw [appended, changed]
  split
  · rename_i same
    have shared : m.bucket other = m.bucket key := by rw [bucket, bucket, same]
    rw [find_append, shared]
    congr 1
    by_cases eq : other = key
    · rw [if_pos eq, if_pos eq.symm]
    · rw [if_neg eq, if_neg (Ne.symm eq)]
  · rename_i apart
    have different : other ≠ key := fun eq => apart (eq ▸ rfl)
    simp [different]

theorem get_appended (buckets : 0 < m.capacity) (fresh : m.get key = .ok none) :
    (m.appended key data).get other = if other = key then .ok (some data) else m.get other := by
  rw [get_eq (by rw [appended_capacity]; exact buckets), find_appended buckets]
  by_cases same : other = key
  · subst same
    rw [get_eq buckets, Except.ok.injEq, Option.map_eq_none_iff] at fresh
    rw [if_pos rfl, if_pos rfl, fresh]
    rfl
  · rw [if_neg same, if_neg same, Option.or_none, get_eq buckets]

theorem nodes_appended (buckets : 0 < m.capacity) (key : Key) (data : α) :
    ((m.appended key data).nodes : Multiset (Node α)) = ⟨key, data⟩ ::ₘ (m.nodes : Multiset (Node α)) := by
  have moved := nodes_set buckets key (m.bucket key ++ [⟨key, data⟩])
  rw [← Multiset.coe_add, Multiset.add_comm (m.bucket key : Multiset (Node α)), ← Multiset.add_assoc]
    at moved
  rw [nodes, appended, add_right_cancel moved, Multiset.coe_singleton, Multiset.add_comm,
    Multiset.singleton_add]

/-! ### Removal -/

theorem map_key_setFirst (key : Key) (data : α) (chain : List (Node α)) :
    (setFirst key data chain).map Node.key = chain.map Node.key := by
  induction chain with
  | nil => rfl
  | cons node rest ih =>
    unfold setFirst
    split
    · rfl
    · simp [ih]

theorem unlink_sublist {chain rest : List (Node α)} (removed : unlink key chain = some rest) :
    rest.Sublist chain := by
  induction chain generalizing rest with
  | nil => cases removed
  | cons node tail ih =>
    unfold unlink at removed
    split at removed
    · cases removed
      exact List.sublist_cons_self node tail
    · obtain ⟨shorter, removedTail, rfl⟩ := Option.map_eq_some_iff.mp removed
      exact (ih removedTail).cons_cons node

theorem length_unlink {chain rest : List (Node α)} (removed : unlink key chain = some rest) :
    rest.length + 1 = chain.length := by
  induction chain generalizing rest with
  | nil => cases removed
  | cons node tail ih =>
    unfold unlink at removed
    split at removed
    · cases removed
      rfl
    · obtain ⟨shorter, removedTail, rfl⟩ := Option.map_eq_some_iff.mp removed
      rw [List.length_cons, List.length_cons, ih removedTail]

theorem unlink_found {chain : List (Node α)} {node : Node α} (found : find key chain = some node) :
    ∃ rest, unlink key chain = some rest := by
  induction chain with
  | nil => cases found
  | cons head tail ih =>
    unfold unlink
    by_cases here : head.key = key
    · exact ⟨tail, if_pos here⟩
    · obtain ⟨rest, removed⟩ := ih (by simpa [find, here] using found)
      exact ⟨head :: rest, by rw [if_neg here, removed]; rfl⟩

/-- Removing a key changes no lookup of another. -/
theorem find_unlink_other (different : other ≠ key) {chain rest : List (Node α)}
    (removed : unlink key chain = some rest) : find other rest = find other chain := by
  induction chain generalizing rest with
  | nil => cases removed
  | cons node tail ih =>
    unfold unlink at removed
    split at removed
    · rename_i here
      cases removed
      have apart : ¬ node.key = other := fun eq => different (eq ▸ here)
      simp [find, apart]
    · obtain ⟨shorter, removedTail, rfl⟩ := Option.map_eq_some_iff.mp removed
      by_cases this : node.key = other
      · simp [find, this]
      · simpa [find, this] using ih removedTail

/-- Removing a key that stands once leaves the others and no node for it. -/
theorem find_unlink (other : Key) {chain rest : List (Node α)}
    (unique : (chain.map Node.key).Nodup) (removed : unlink key chain = some rest) :
    (rest.map Node.key).Nodup ∧
      find other rest = if other = key then none else find other chain := by
  induction chain generalizing rest with
  | nil => cases removed
  | cons node tail ih =>
    rw [List.map_cons, List.nodup_cons] at unique
    unfold unlink at removed
    by_cases here : node.key = key
    · rw [if_pos here] at removed
      obtain rfl := Option.some.inj removed
      refine ⟨unique.2, ?_⟩
      by_cases same : other = key
      · rw [if_pos same, find, List.find?_eq_none]
        intro entry member
        simp only [decide_eq_true_eq]
        exact fun eq => unique.1 (List.mem_map.mpr ⟨entry, member, by rw [eq, same, here]⟩)
      · have apart : ¬ node.key = other := fun eq => same (eq ▸ here)
        rw [if_neg same, find, find, List.find?_cons]
        simp [apart]
    · rw [if_neg here] at removed
      obtain ⟨shorter, removedTail, rfl⟩ := Option.map_eq_some_iff.mp removed
      obtain ⟨restUnique, found⟩ := ih unique.2 removedTail
      constructor
      · rw [List.map_cons, List.nodup_cons]
        refine ⟨fun member => unique.1 ?_, restUnique⟩
        exact (unlink_sublist removedTail).map Node.key |>.subset member
      · by_cases this : node.key = other
        · have apart : other ≠ key := fun eq => here (this.trans eq)
          simp [find, this, apart]
        · simpa [find, this] using found

/-- The map after the chain of `key` has become `rest`, one node shorter. -/
def removed (m : Myhashmap α) (key : Key) (rest : List (Node α)) : Myhashmap α :=
  { m with buckets := m.buckets.set (bucketOf m.capacity key) rest, count := m.count - 1 }

@[simp] theorem removed_capacity {rest : List (Node α)} :
    (m.removed key rest).capacity = m.capacity :=
  List.length_set

theorem erase_found (buckets : 0 < m.capacity) {node : Node α}
    (found : find key (m.bucket key) = some node) :
    ∃ rest, unlink key (m.bucket key) = some rest ∧ m.erase key = .ok (m.removed key rest) := by
  obtain ⟨rest, removed⟩ := unlink_found found
  have nonempty : m.bucket key ≠ [] := fun empty => by rw [empty] at found; cases found
  refine ⟨rest, removed, ?_⟩
  simp [erase, index_eq buckets, chain_eq buckets, bind, Except.bind, nonempty, removed,
    Myhashmap.removed]

theorem find_removed (other : Key) (buckets : 0 < m.capacity) {rest : List (Node α)}
    (unique : ((m.bucket key).map Node.key).Nodup)
    (unlinked : unlink key (m.bucket key) = some rest) :
    find other ((m.removed key rest).bucket other) =
      if other = key then none else find other (m.bucket other) := by
  rw [removed, bucket_set buckets]
  split
  · rename_i shared
    rw [(find_unlink other unique unlinked).2, bucket, bucket, shared]
  · rename_i apart
    rw [if_neg fun eq : other = key => apart (eq ▸ rfl)]

/-! ### What a lookup can answer -/

/-- A map with buckets in which everything that is found has a property. -/
structure Yields (P : α → Prop) (m : Myhashmap α) : Prop where
  buckets : 0 < m.capacity
  unsized : m.size = 0
  found : ∀ key node, find key (m.bucket key) = some node → P node.data

namespace Yields
variable {P : α → Prop}

theorem ofCapacity {capacity : Nat} (positive : 0 < capacity) :
    Yields P (Myhashmap.ofCapacity capacity [] : Myhashmap α × Heap).1 := by
  refine ⟨by simpa [Myhashmap.ofCapacity, Myhashmap.capacity] using positive, rfl, ?_⟩
  intro key node found
  have empty : bucket (Myhashmap.ofCapacity capacity [] : Myhashmap α × Heap).1 key = [] := by
    simp only [bucket, Myhashmap.ofCapacity, Heap.alloc_nil, if_true, List.getD_eq_getElem?_getD,
      List.getElem?_replicate]
    split <;> rfl
  rw [empty] at found
  cases found

theorem get (yields : Yields P m) (got : m.get key = .ok (some data)) : P data := by
  rw [get_eq yields.buckets] at got
  obtain ⟨node, found, rfl⟩ := Option.map_eq_some_iff.mp (Except.ok.inj got)
  exact yields.found key node found

theorem rewritten (yields : Yields P m) (holds : P data) : Yields P (m.rewritten key data) := by
  refine ⟨by rw [rewritten_capacity]; exact yields.buckets, yields.unsized, fun other node found => ?_⟩
  rw [find_rewritten yields.buckets] at found
  split at found
  · obtain ⟨_, -, rfl⟩ := Option.map_eq_some_iff.mp found
    exact holds
  · exact yields.found other node found

theorem add (yields : Yields P m) (holds : P data) {ok : Bool} {m' : Myhashmap α} {heap after : Heap}
    (added : m.add key data heap = .ok (ok, m', after)) : Yields P m' := by
  obtain ⟨result, ends, how⟩ := add_ends yields.buckets yields.unsized key data heap
  obtain rfl := Except.ok.inj (ends.symm.trans added)
  cases how with
  | refused => exact yields
  | appended =>
    refine ⟨by rw [appended_capacity]; exact yields.buckets, yields.unsized, fun other node found => ?_⟩
    rw [find_appended yields.buckets, Option.or_eq_some_iff] at found
    rcases found with before | ⟨-, now⟩
    · exact yields.found other node before
    · split at now
      · cases now
        exact holds
      · cases now
  | emptied _ crowded =>
    have buckets := emptied_capacity yields.buckets crowded
    refine ⟨buckets, rfl, fun other node found => ?_⟩
    have nothing := emptied_get yields.buckets crowded other
    rw [get_eq buckets, found] at nothing
    cases nothing

end Yields

end Laws

end Myhashmap
end MqttBroker
